/-
What the rollout writer leaves in its file, whatever fails: the records that were there,
the session metadata of a new rollout, and a prefix of the items handed over, acknowledged
ones included (`rolloutWriter_points`).
-/
import Codex.Writer

namespace Codex

variable {codec : LineCodec} {io : Nat → IoAnswer}

/-! ## The records of a file -/

/-- What the writer relies on in the lines with the timestamps, ordinals and
items that it writes: they parse, a torn one does not, and none holds a newline. -/
structure LineCodec.Lawful (codec : LineCodec) (stamps : String → Prop) (ordinals : Option Nat → Prop)
    (items : RolloutItem → Prop) : Prop where
  parse_nil : codec.parse [] = none
  parse_encode : ∀ t o i, stamps t → ordinals o → items i →
    codec.parse (codec.encode t o i) = some { ordinal := o, item := i }
  parse_torn : ∀ t o i, stamps t → ordinals o → items i → ∀ cut < (codec.encode t o i).length,
    codec.parse ((codec.encode t o i).take cut) = none
  not_mem : ∀ t o i, stamps t → ordinals o → items i → newline ∉ codec.encode t o i

def Terminated (file : Bytes) : Prop := file = [] ∨ file.getLast? = some newline

namespace LineCodec

theorem records_append_newline (file rest : Bytes) :
    codec.records (file ++ newline :: rest) = codec.records file ++ codec.records rest := by
  rw [records, List.splitOn_append_cons_self, List.filterMap_append]
  rfl

theorem records_nil (hnil : codec.parse [] = none) : codec.records [] = [] := by
  simp [records, hnil]

theorem records_append {file} (hnil : codec.parse [] = none) (h : Terminated file) (rest : Bytes) :
    codec.records (file ++ rest) = codec.records file ++ codec.records rest := by
  rcases h with rfl | h
  · rw [records_nil hnil, List.nil_append, List.nil_append]
  · obtain ⟨front, rfl⟩ := List.getLast?_eq_some_iff.1 h
    rw [List.append_assoc, List.singleton_append, records_append_newline, records_append_newline,
      records_nil hnil, List.append_nil]

theorem records_line {line} (h : newline ∉ line) : codec.records line = (codec.parse line).toList := by
  rw [records, List.splitOn_eq_singleton h]
  cases hp : codec.parse line <;> simp [hp]

/-- Ending a torn last line adds no record. -/
theorem records_terminate (hnil : codec.parse [] = none) (file : Bytes) :
    codec.records (file ++ [newline]) = codec.records file := by
  rw [records_append_newline, records_nil hnil, List.append_nil]

theorem findSome?_reverse_records (file : Bytes) :
    (file.splitOn newline).reverse.findSome? codec.parse = (codec.records file).getLast? := by
  rw [records, List.getLast?_eq_head?_reverse, ← List.filterMap_reverse, List.head?_filterMap]

end LineCodec

/-! ## Ordinals -/

/-- The ordinal of the record `count` after those of the file, the first of which has `start`. -/
def ordinalAt (start : Option Nat) (count : Nat) : Option Nat := start.map (· + count)

/-- The state that gives it out. -/
def stateAt (start : Option Nat) (count : Nat) : RolloutOrdinalState :=
  match start with
  | none => .legacy
  | some n => .paginated (if n + count < 2 ^ 64 then some (n + count) else none)

/-- The ordinals that a state gives out: none in a legacy rollout, 64-bit ones in a paginated one. -/
def GivesOrdinal (start : Option Nat) (ordinal : Option Nat) : Prop :=
  ordinal.isSome = start.isSome ∧ ∀ n, ordinal = some n → n < 2 ^ 64

variable {count : Nat} {ordinal : Option Nat} {s : RolloutWriterState} {w : World} {item : RolloutItem}

theorem current_stateAt {start} (h : (stateAt start count).current = .ok ordinal) :
    ordinal = ordinalAt start count ∧ GivesOrdinal start ordinal ∧
      (stateAt start count).advance = stateAt start (count + 1) := by
  cases start with
  | none =>
    cases h
    exact ⟨rfl, ⟨rfl, by simp⟩, rfl⟩
  | some n =>
    simp only [stateAt] at h ⊢
    split at h
    · next hlt =>
      cases h
      refine ⟨rfl, ⟨rfl, by rintro m ⟨⟩; exact hlt⟩, ?_⟩
      rw [if_pos hlt]
      rfl
    · cases h

/-! ## What the file holds -/

/-- The items of the records written: the session metadata of a new rollout,
then the first `count` items handed over. -/
def Recorded (sessionMeta : Option SessionMeta) (added : List RolloutItem) (count : Nat)
    (items : List RolloutItem) : Prop :=
  match sessionMeta with
  | none => items = added.take count
  | some sessionMeta => ∃ git, items = .sessionMeta { sessionMeta with git } :: added.take count

/-- **What an observer sees**: after `base`, the session metadata and a prefix of the items handed over that includes
those acknowledged, with consecutive ordinals. -/
def Point.Holds (codec : LineCodec) (base : List RolloutLine) (start : Option Nat) (sessionMeta : Option SessionMeta)
    (p : Point) : Prop :=
  ∃ done count, codec.records p.file = base ++ done ∧
    done.map (·.ordinal) = (List.range done.length).map (ordinalAt start) ∧
    ((sessionMeta.isSome = true ∧ done = [] ∧ count = 0) ∨
      Recorded sessionMeta p.added count (done.map (·.item))) ∧
    p.acked ≤ count ∧ count ≤ p.added.length

/-- No failed write left its whole line. -/
def World.Clean (w : World) : Prop := ∀ torn ∈ w.torn, torn.2 < torn.1.length

namespace RolloutWriter

section

variable (codec : LineCodec) (base : List RolloutLine) (start : Option Nat) (sessionMeta : Option SessionMeta)
  (allowed : RolloutItem → Prop)

/-- The writer and the file agree on the records `done`, which are `count` of the items. -/
structure Agrees (s : RolloutWriterState) (w : World) (done : List RolloutLine) (count : Nat) : Prop where
  file : codec.records w.file = base ++ done
  ordinals : done.map (·.ordinal) = (List.range done.length).map (ordinalAt start)
  state : s.ordinalState = stateAt start done.length
  pending : s.pendingItems = w.added.drop count
  count_le : count ≤ w.added.length
  acked : w.acked ≤ count
  recorded : (s.sessionMeta = none ∧ Recorded sessionMeta w.added count (done.map (·.item))) ∨
    (s.sessionMeta = sessionMeta ∧ sessionMeta.isSome = true ∧ done = [] ∧ count = 0)
  allowed : ∀ item ∈ w.added, allowed item
  points : ∀ p ∈ w.points, p.Holds codec base start sessionMeta

/-- They agree unless a failed write left its whole line. -/
def Consistent (s : RolloutWriterState) (w : World) : Prop :=
  w.Clean → ∃ done count, Agrees codec base start sessionMeta allowed s w done count

/-- The writer is open on a file it can append to. -/
def Ready (s : RolloutWriterState) (w : World) : Prop :=
  Consistent codec base start sessionMeta allowed s w ∧ s.writer = true ∧ Terminated w.file

/-- The writer between two commands. -/
def Idle (s : RolloutWriterState) (w : World) : Prop :=
  Consistent codec base start sessionMeta allowed s w ∧ (s.writer = true → Terminated w.file)

end

variable {base : List RolloutLine} {start : Option Nat} {sessionMeta : Option SessionMeta}
  {allowed : RolloutItem → Prop}

theorem Agrees.holds {done} (h : Agrees codec base start sessionMeta allowed s w done count) :
    Point.Holds codec base start sessionMeta { file := w.file, added := w.added, acked := w.acked } := by
  refine ⟨done, count, h.file, h.ordinals, ?_, h.acked, h.count_le⟩
  exact h.recorded.elim (fun hr => .inr hr.2) fun hr => .inl hr.2

/-- An operation that leaves the records as they are. -/
theorem Consistent.observe (h : Consistent codec base start sessionMeta allowed s w)
    (file : Bytes) (hfile : codec.records file = codec.records w.file) :
    Consistent codec base start sessionMeta allowed s (w.observe file) := by
  intro hclean
  obtain ⟨done, count, ha⟩ := h hclean
  have hsame : Agrees codec base start sessionMeta allowed s { w with file } done count :=
    { ha with file := hfile.trans ha.file }
  refine ⟨done, count, { hsame with points := ?_ }⟩
  intro p hp
  rcases List.mem_append.1 hp with hp | hp
  · exact ha.points p hp
  · rw [List.mem_singleton.1 hp]
    exact hsame.holds

/-- What the writer does not read back. -/
theorem Consistent.of_eq {s'} (h : Consistent codec base start sessionMeta allowed s w)
    (hord : s'.ordinalState = s.ordinalState) (hpend : s'.pendingItems = s.pendingItems)
    (hmeta : s'.sessionMeta = s.sessionMeta) : Consistent codec base start sessionMeta allowed s' w := by
  intro hclean
  obtain ⟨done, count, ha⟩ := h hclean
  exact ⟨done, count, { ha with
    state := hord.trans ha.state, pending := hpend.trans ha.pending, recorded := hmeta ▸ ha.recorded }⟩

theorem Idle.enterRecoveryMode (h : Consistent codec base start sessionMeta allowed s w)
    (message : String) : Idle codec base start sessionMeta allowed (s.enterRecoveryMode message) w :=
  ⟨h.of_eq rfl rfl rfl, fun hw => by cases hw⟩

/-! ## The operations -/

/-- What an operation leaves: a writer to go on with, of which `done` holds, or one to recover. -/
def Leaves (codec : LineCodec) (base : List RolloutLine) (start : Option Nat) (sessionMeta : Option SessionMeta)
    (allowed : RolloutItem → Prop) (done : RolloutWriterState → Prop) (result : Except String Unit × WriterM) : Prop :=
  match result with
  | (.ok (), s, w) => Ready codec base start sessionMeta allowed s w ∧ done s
  | (.error _, s, w) => Consistent codec base start sessionMeta allowed s w

theorem Leaves.andThen {first} {done done' : RolloutWriterState → Prop}
    {next : RolloutWriterState → World → Except String Unit × WriterM}
    (h : Leaves codec base start sessionMeta allowed done first)
    (hnext : ∀ s w, Ready codec base start sessionMeta allowed s w → done s →
      Leaves codec base start sessionMeta allowed done' (next s w)) :
    Leaves codec base start sessionMeta allowed done' (RolloutWriterState.andThen first next) := by
  obtain ⟨result, s, w⟩ := first
  cases result with
  | error e => exact h
  | ok => exact hnext s w h.1 h.2

variable (io) in
/-- Opening the file ends a torn last line, which adds no record. -/
theorem openLogFile_records (hnil : codec.parse [] = none) (w : World) :
    codec.records (openLogFile io w).2.file = codec.records w.file := by
  have hend := codec.records_terminate hnil w.file
  unfold openLogFile
  simp only
  split
  · unfold ensureRolloutIsNewlineTerminated
    split
    · rfl
    · split
      · rfl
      · simp only
        split
        · exact hend
        · change codec.records (if _ then _ else _) = _
          split
          · rfl
          · exact hend
  · rfl

variable (io) in
theorem openLogFile_spec (hnil : codec.parse [] = none) {s : RolloutWriterState} {w : World}
    (h : Consistent codec base start sessionMeta allowed s w) :
    Consistent codec base start sessionMeta allowed s (openLogFile io w).2 ∧
      ((openLogFile io w).1 = .ok () → Terminated (openLogFile io w).2.file) := by
  have hopened := h.observe w.file rfl
  unfold openLogFile
  simp only
  split
  · unfold ensureRolloutIsNewlineTerminated
    split
    · next hf => exact ⟨hopened, fun _ => .inl hf⟩
    · split
      · next hl => exact ⟨hopened, fun _ => .inr hl⟩
      · have hend := hopened.observe _ (codec.records_terminate hnil (w.observe w.file).file)
        simp only
        split
        · exact ⟨hend, fun _ => .inr (by simp [World.observe])⟩
        · refine ⟨?_, fun he => by cases he⟩
          split
          · exact hopened.observe _ rfl
          · exact hend
  · exact ⟨hopened, fun he => by cases he⟩

variable (io) in
theorem ensureWriterOpen_leaves (hnil : codec.parse [] = none) {s : RolloutWriterState} {w : World}
    (h : Idle codec base start sessionMeta allowed s w) :
    Leaves codec base start sessionMeta allowed (fun _ => True) (s.ensureWriterOpen io w) := by
  unfold RolloutWriterState.ensureWriterOpen
  split
  · next hw => exact ⟨⟨h.1, hw, h.2 hw⟩, trivial⟩
  · obtain ⟨hcons, hterm⟩ := openLogFile_spec io hnil h.1
    split
    · next w' heq =>
      rw [heq] at hcons hterm
      exact ⟨⟨hcons.of_eq rfl rfl rfl, rfl, hterm rfl⟩, trivial⟩
    · next e w' heq =>
      rw [heq] at hcons
      exact hcons

theorem Agrees.write {s' file done} {count' : Nat}
    (h : Agrees codec base start sessionMeta allowed s w done count)
    (hfile : codec.records file = base ++ (done ++ [⟨ordinal, item⟩])) (hord : ordinal = ordinalAt start done.length)
    (hstate : s'.ordinalState = stateAt start (done.length + 1)) (hpending : s'.pendingItems = w.added.drop count')
    (hcount : count ≤ count') (hle : count' ≤ w.added.length) (hmeta : s'.sessionMeta = none)
    (hrecorded : Recorded sessionMeta w.added count' (done.map (·.item) ++ [item])) :
    Agrees codec base start sessionMeta allowed s' (w.observe file) (done ++ [⟨ordinal, item⟩]) count' := by
  have hsame : Agrees codec base start sessionMeta allowed s' { w with file } (done ++ [⟨ordinal, item⟩]) count' :=
    { file := hfile
      ordinals := by simp [h.ordinals, hord, List.range_succ]
      state := by simpa using hstate
      pending := hpending
      count_le := hle
      acked := Nat.le_trans h.acked hcount
      recorded := .inl ⟨hmeta, by simpa using hrecorded⟩
      allowed := h.allowed
      points := h.points }
  refine { hsame with points := ?_ }
  intro p hp
  rcases List.mem_append.1 hp with hp | hp
  · exact h.points p hp
  · rw [List.mem_singleton.1 hp]
    exact hsame.holds

section

variable (hlaw : codec.Lawful (fun t => ∃ n, (io n).timestamp = t) (GivesOrdinal start) allowed)

include hlaw

/-- A record write that fails leaves no record, when it does not leave the whole line. -/
theorem writeRolloutItem_error {w' e} (h : Ready codec base start sessionMeta allowed s w) (hitem : w.Clean → allowed item)
    (hcur : s.ordinalState.current = .ok ordinal)
    (hwrite : writeRolloutItem codec io item ordinal w = (.error e, w')) :
    Consistent codec base start sessionMeta allowed s w' := by
  obtain ⟨hcons, -, hterm⟩ := h
  simp only [writeRolloutItem, writeLine] at hwrite
  split at hwrite
  · cases hwrite
  · cases hwrite
    intro hclean
    have hbefore : w.Clean := fun torn ht => hclean torn (List.mem_append_left _ ht)
    have hcut : (io w.clock).cut < (codec.encode (io w.clock).timestamp ordinal item).length :=
      hclean _ (List.mem_append_right _ (List.mem_singleton.2 rfl))
    obtain ⟨done, count, ha⟩ := hcons hbefore
    rw [ha.state] at hcur
    obtain ⟨-, hgives, -⟩ := current_stateAt hcur
    have hmem := hlaw.not_mem _ _ _ ⟨w.clock, rfl⟩ hgives (hitem hbefore)
    have hsame : codec.records (w.file ++ (codec.encode (io w.clock).timestamp ordinal item).take (io w.clock).cut) =
        codec.records w.file := by
      rw [codec.records_append hlaw.parse_nil hterm,
        codec.records_line (fun hm => hmem (List.mem_of_mem_take hm)),
        hlaw.parse_torn _ _ _ ⟨w.clock, rfl⟩ hgives (hitem hbefore) _ hcut]
      exact List.append_nil _
    obtain ⟨done', count', ha'⟩ := (hcons.observe _ hsame) hbefore
    exact ⟨done', count', { ha' with }⟩

/-- A record write that succeeds appends its record. -/
theorem writeRolloutItem_ok {w'}
    (h : Ready codec base start sessionMeta allowed s w) (hitem : w.Clean → allowed item)
    (hcur : s.ordinalState.current = .ok ordinal)
    (hwrite : writeRolloutItem codec io item ordinal w = (.ok (), w')) :
    (∃ file, w' = w.observe file) ∧ Terminated w'.file ∧ (w.Clean → ∃ done count,
      Agrees codec base start sessionMeta allowed s w done count ∧
      codec.records w'.file = base ++ (done ++ [⟨ordinal, item⟩]) ∧ ordinal = ordinalAt start done.length ∧
      s.ordinalState.advance = stateAt start (done.length + 1)) := by
  obtain ⟨hcons, -, hterm⟩ := h
  simp only [writeRolloutItem, writeLine] at hwrite
  split at hwrite
  · cases hwrite
    refine ⟨⟨_, rfl⟩, .inr (by simp [World.observe]), fun hclean => ?_⟩
    obtain ⟨done, count, ha⟩ := hcons hclean
    rw [ha.state] at hcur ⊢
    obtain ⟨hord, hgives, hadv⟩ := current_stateAt hcur
    refine ⟨done, count, ha, ?_, hord, hadv⟩
    have hmem := hlaw.not_mem _ _ _ ⟨w.clock, rfl⟩ hgives (hitem hclean)
    change codec.records (w.file ++ (codec.encode (io w.clock).timestamp ordinal item ++ [newline])) = _
    rw [codec.records_append hlaw.parse_nil hterm, codec.records_terminate hlaw.parse_nil, codec.records_line hmem,
      hlaw.parse_encode _ _ _ ⟨w.clock, rfl⟩ hgives (hitem hclean), ha.file, List.append_assoc]
    rfl
  · cases hwrite

theorem writeSessionMetaIfNeeded_leaves
    (hmeta : ∀ m, sessionMeta = some m → ∀ n, allowed (.sessionMeta { m with git := (io n).git }))
    (h : Ready codec base start sessionMeta allowed s w) :
    Leaves codec base start sessionMeta allowed (·.sessionMeta = none) (s.writeSessionMetaIfNeeded codec io w) := by
  unfold RolloutWriterState.writeSessionMetaIfNeeded
  split
  · next hs => exact ⟨h, hs⟩
  · next m hs =>
    rw [if_pos h.2.1]
    have hitem : w.Clean → allowed (.sessionMeta { m with git := (io w.clock).git }) := by
      intro hclean
      obtain ⟨done, count, ha⟩ := h.1 hclean
      rcases ha.recorded with ⟨hnone, -⟩ | ⟨hsome, -⟩
      · rw [hs] at hnone; cases hnone
      · exact hmeta m (hsome.symm.trans hs) w.clock
    split
    · exact h.1
    · next ordinal hcur =>
      split
      · next w' hwrite =>
        obtain ⟨⟨file, rfl⟩, hterm, hok⟩ := writeRolloutItem_ok hlaw h hitem hcur hwrite
        refine ⟨⟨fun hclean => ?_, h.2.1, hterm⟩, rfl⟩
        obtain ⟨done, count, ha, hfile, hord, hadv⟩ := hok hclean
        rcases ha.recorded with ⟨hnone, -⟩ | ⟨hsome, -, rfl, rfl⟩
        · rw [hs] at hnone; cases hnone
        · refine ⟨_, 0, ha.write hfile hord hadv ha.pending (Nat.le_refl _) ha.count_le rfl ?_⟩
          rw [← hsome, hs]
          exact ⟨_, rfl⟩
      · next e w' hwrite =>
        exact writeRolloutItem_error hlaw h hitem hcur hwrite

/-- The items are written in order; those that are not stay pending. -/
theorem writeItems_leaves {items}
    (h : Ready codec base start sessionMeta allowed { s with pendingItems := items } w) (hs : s.sessionMeta = none) :
    Leaves codec base start sessionMeta allowed (·.pendingItems = []) (s.writeItems codec io w items) := by
  induction items generalizing s w with
  | nil => exact ⟨h, rfl⟩
  | cons item rest ih =>
    unfold RolloutWriterState.writeItems
    -- The next item is the first of those handed over that are not in the file.
    have hnext {done : List RolloutLine} {count : Nat}
        (ha : Agrees codec base start sessionMeta allowed { s with pendingItems := item :: rest } w done count) :
        w.added[count]? = some item ∧ w.added.drop (count + 1) = rest := by
      have hp : item :: rest = w.added.drop count := ha.pending
      refine ⟨?_, ?_⟩
      · rw [← List.head?_drop, ← hp]
        rfl
      · rw [← List.tail_drop, ← hp]
        rfl
    have hitem : w.Clean → allowed item := by
      intro hclean
      obtain ⟨done, count, ha⟩ := h.1 hclean
      exact ha.allowed item (List.mem_of_getElem? (hnext ha).1)
    split
    · exact h.1
    · next ordinal hcur =>
      split
      · next w' hwrite =>
        obtain ⟨⟨file, rfl⟩, hterm, hok⟩ := writeRolloutItem_ok hlaw h hitem hcur hwrite
        refine ih ⟨fun hclean => ?_, h.2.1, hterm⟩ hs
        obtain ⟨done, count, ha, hfile, hord, hadv⟩ := hok hclean
        obtain ⟨hget, hdrop⟩ := hnext ha
        have hlt : count < w.added.length := (List.getElem?_eq_some_iff.1 hget).1
        refine ⟨_, count + 1, ha.write hfile hord hadv hdrop.symm (Nat.le_succ _) hlt hs ?_⟩
        have htake : w.added.take (count + 1) = w.added.take count ++ [item] := by
          rw [List.take_add_one, hget]
          rfl
        rcases ha.recorded with ⟨-, hr⟩ | ⟨hsome, hm, -⟩
        · simp only [Recorded, htake] at hr ⊢
          cases sessionMeta with
          | none => exact congrArg (· ++ [item]) hr
          | some m =>
            obtain ⟨git, hr⟩ := hr
            exact ⟨git, congrArg (· ++ [item]) hr⟩
        · rw [← hsome] at hm
          simp [hs] at hm
      · next e w' hwrite =>
        exact writeRolloutItem_error hlaw h hitem hcur hwrite

theorem writePendingItemsOnce_leaves
    (h : Ready codec base start sessionMeta allowed s w) (hs : s.sessionMeta = none) :
    Leaves codec base start sessionMeta allowed (·.pendingItems = []) (s.writePendingItemsOnce codec io w) := by
  rw [RolloutWriterState.writePendingItemsOnce, if_pos h.2.1]
  exact writeItems_leaves hlaw h hs

omit hlaw in
theorem flushFile_leaves {s : RolloutWriterState} {w : World} {done : RolloutWriterState → Prop}
    (h : Ready codec base start sessionMeta allowed s w) (hdone : done s) :
    Leaves codec base start sessionMeta allowed done (s.flushFile io w) := by
  have hcons := h.1.observe w.file rfl
  unfold RolloutWriterState.flushFile
  simp only
  split
  · exact ⟨⟨hcons, h.2⟩, hdone⟩
  · exact hcons

variable (hmeta : ∀ m, sessionMeta = some m → ∀ n, allowed (.sessionMeta { m with git := (io n).git }))

include hmeta

theorem writePendingOnce_leaves (h : Idle codec base start sessionMeta allowed s w) :
    Leaves codec base start sessionMeta allowed (·.pendingItems = []) (s.writePendingOnce codec io w) := by
  have hopen := ensureWriterOpen_leaves io hlaw.parse_nil h
  have hsession := hopen.andThen fun s w hr _ => writeSessionMetaIfNeeded_leaves hlaw hmeta hr
  have hitems := hsession.andThen fun s w hr hs => writePendingItemsOnce_leaves hlaw hr hs
  exact hitems.andThen fun s w hr hs => flushFile_leaves hr hs

/-- A barrier leaves the writer between commands, with nothing pending when it succeeds. -/
def Barrier (codec : LineCodec) (base : List RolloutLine) (start : Option Nat) (sessionMeta : Option SessionMeta)
    (allowed : RolloutItem → Prop) (result : Except String Unit × WriterM) : Prop :=
  Idle codec base start sessionMeta allowed result.2.1 result.2.2 ∧
    (result.1 = .ok () → result.2.1.pendingItems = [])

theorem writePendingWithRecovery_barrier (h : Idle codec base start sessionMeta allowed s w) :
    Barrier codec base start sessionMeta allowed (s.writePendingWithRecovery codec io w) := by
  have hfirst := writePendingOnce_leaves hlaw hmeta h
  unfold RolloutWriterState.writePendingWithRecovery
  split
  · next s₁ w₁ heq =>
    rw [heq] at hfirst
    exact ⟨⟨hfirst.1.1.of_eq rfl rfl rfl, fun _ => hfirst.1.2.2⟩, fun _ => hfirst.2⟩
  · next e s₁ w₁ heq =>
    rw [heq] at hfirst
    have hsecond := writePendingOnce_leaves hlaw hmeta (Idle.enterRecoveryMode hfirst e)
    split
    · next s₂ w₂ heq₂ =>
      rw [heq₂] at hsecond
      exact ⟨⟨hsecond.1.1.of_eq rfl rfl rfl, fun _ => hsecond.1.2.2⟩, fun _ => hsecond.2⟩
    · next e₂ s₂ w₂ heq₂ =>
      rw [heq₂] at hsecond
      exact ⟨Idle.enterRecoveryMode hsecond e₂, fun he => by cases he⟩

theorem flush_barrier (h : Idle codec base start sessionMeta allowed s w) :
    Barrier codec base start sessionMeta allowed (s.flush codec io w) := by
  unfold RolloutWriterState.flush
  split
  · next hd =>
    rw [Bool.and_eq_true, List.isEmpty_iff] at hd
    exact ⟨h, fun _ => hd.2⟩
  · exact writePendingWithRecovery_barrier hlaw hmeta h

omit hlaw hmeta in
/-- An acknowledged barrier covers everything handed over before it. -/
theorem acknowledged_idle {result : Except String Unit × WriterM}
    (h : Barrier codec base start sessionMeta allowed result) :
    Idle codec base start sessionMeta allowed (acknowledged result).1 (acknowledged result).2 := by
  obtain ⟨answer, s, w⟩ := result
  cases answer with
  | error e => exact h.1
  | ok =>
    refine ⟨fun hclean => ?_, h.1.2⟩
    obtain ⟨done, count, ha⟩ := h.1.1 hclean
    have hall : w.added.length = count := by
      have hp : w.added.drop count = [] := ha.pending.symm.trans (h.2 rfl)
      exact Nat.le_antisymm (List.drop_eq_nil_iff.1 hp) ha.count_le
    have hsame : Agrees codec base start sessionMeta allowed s { w with acked := w.added.length } done count :=
      { ha with acked := Nat.le_of_eq hall }
    refine ⟨done, count, { hsame with points := ?_ }⟩
    intro p hp
    rcases List.mem_append.1 hp with hp | hp
    · exact ha.points p hp
    · rw [List.mem_singleton.1 hp]
      exact hsame.holds

omit hlaw hmeta in
theorem Idle.add {s : RolloutWriterState} {w : World} {items : List RolloutItem}
    (h : Idle codec base start sessionMeta allowed s w) (hitems : ∀ item ∈ items, allowed item) :
    Idle codec base start sessionMeta allowed (s.addItems items) (w.add items) := by
  refine ⟨fun hclean => ?_, h.2⟩
  obtain ⟨done, count, ha⟩ := h.1 hclean
  have htake : (w.added ++ items).take count = w.added.take count := List.take_append_of_le_length ha.count_le
  refine ⟨done, count, { ha with pending := ?_, count_le := ?_, recorded := ?_, allowed := ?_ }⟩
  · rw [RolloutWriterState.addItems, ha.pending]
    exact (List.drop_append_of_le_length ha.count_le).symm
  · exact Nat.le_trans ha.count_le (by simp [World.add])
  · simpa only [Recorded, World.add, RolloutWriterState.addItems, htake] using ha.recorded
  · intro item hi
    exact (List.mem_append.1 hi).elim (ha.allowed item) (hitems item)

theorem flushIfMaterialized_idle (h : Idle codec base start sessionMeta allowed s w) :
    Idle codec base start sessionMeta allowed (s.flushIfMaterialized codec io w).1
      (s.flushIfMaterialized codec io w).2 := by
  unfold RolloutWriterState.flushIfMaterialized
  split
  · exact h
  · have hf := flush_barrier hlaw hmeta h
    split
    · next s₁ w₁ heq => rw [heq] at hf; exact hf.1
    · next e s₁ w₁ heq => rw [heq] at hf; exact Idle.enterRecoveryMode hf.1.1 e

/-- One command. -/
theorem handleCmd_idle {cmd} (h : Idle codec base start sessionMeta allowed s w)
    (hitems : ∀ items, cmd = .addItems items → ∀ item ∈ items, allowed item) :
    Idle codec base start sessionMeta allowed (handleCmd codec io cmd s w).2.1 (handleCmd codec io cmd s w).2.2 := by
  cases cmd with
  | addItems items => exact flushIfMaterialized_idle hlaw hmeta (h.add (hitems items rfl))
  | persist => exact acknowledged_idle (writePendingWithRecovery_barrier hlaw hmeta h)
  | flush => exact acknowledged_idle (flush_barrier hlaw hmeta h)
  | shutdown => exact acknowledged_idle (flush_barrier hlaw hmeta h)

/-- **Every sequence of commands.** -/
theorem rolloutWriter_idle {cmds} (h : Idle codec base start sessionMeta allowed s w)
    (hitems : ∀ items, .addItems items ∈ cmds → ∀ item ∈ items, allowed item) :
    Idle codec base start sessionMeta allowed (rolloutWriter codec io s w cmds).1
      (rolloutWriter codec io s w cmds).2 := by
  induction cmds generalizing s w with
  | nil => exact h
  | cons cmd cmds ih =>
    have hcmd := handleCmd_idle hlaw hmeta h fun items (he : cmd = _) => hitems items (by simp [he])
    unfold rolloutWriter
    split
    · next s₁ w₁ heq =>
      rw [heq] at hcmd
      exact ih hcmd fun items hm => hitems items (List.mem_cons_of_mem _ hm)
    · next s₁ w₁ heq =>
      rw [heq] at hcmd
      exact hcmd

end

end RolloutWriter

/-! ## The writer's task -/

namespace RolloutRecorderParams

/-- The records of the file before the writer. -/
def base (codec : LineCodec) : RolloutRecorderParams → List RolloutLine
  | .create _ => []
  | .resume file _ => codec.records file

def sessionMeta : RolloutRecorderParams → Option SessionMeta
  | .create m => some m
  | .resume .. => none

/-- The items that the writer may write. -/
def Writes (params : RolloutRecorderParams) (io : Nat → IoAnswer) (cmds : List RolloutCmd) (item : RolloutItem) : Prop :=
  (∃ items, .addItems items ∈ cmds ∧ item ∈ items) ∨
    ∃ m n, params.sessionMeta = some m ∧ item = .sessionMeta { m with git := (io n).git }

end RolloutRecorderParams

/-- The ordinal that continues a paginated file with the records `base`. -/
def firstOrdinal (state : RolloutOrdinalState) (base : List RolloutLine) : Option Nat :=
  match state with
  | .legacy => none
  | .paginated _ => some ((base.getLast?.bind (·.ordinal)).elim 0 (· + 1))

theorem ordinalStateForRollout_eq {file path state}
    (h : ordinalStateForRollout codec file path = .ok state) :
    state = stateAt (firstOrdinal state (codec.records file)) 0 := by
  unfold ordinalStateForRollout at h
  cases hm : readHistoryMetadata codec file path with
  | error e => rw [hm] at h; cases h
  | ok found =>
    rw [hm] at h
    simp only [bind, Except.bind] at h
    split at h
    · cases h; rfl
    · cases h; rfl
    · split at h
      · cases h
      · next record hrecord =>
        split at h
        · cases h
        · next ordinal hordinal =>
          split at h
          · cases h
          · cases h
            rw [LineCodec.findSome?_reverse_records] at hrecord
            simp [firstOrdinal, hrecord, hordinal, stateAt, nextOrdinal]

namespace RolloutWriter

theorem newRolloutRecorder_idle {params : RolloutRecorderParams} {s : RolloutWriterState} {w : World}
    (hnil : codec.parse [] = none) (h : newRolloutRecorder codec io params = .ok (s, w)) :
    Idle codec (params.base codec) (firstOrdinal s.ordinalState (params.base codec)) params.sessionMeta allowed s w := by
  cases params with
  | create m =>
    cases h
    refine ⟨fun _ => ⟨[], 0, ?_⟩, fun hw => by cases hw⟩
    refine { file := codec.records_nil hnil, ordinals := rfl, state := ?_, pending := rfl, count_le := Nat.le_refl _,
             acked := Nat.le_refl _, recorded := .inr ⟨rfl, rfl, rfl, rfl⟩, allowed := by simp, points := by simp }
    cases m.historyMode <;>
      simp [RolloutOrdinalState.forNewRollout, firstOrdinal, stateAt, RolloutRecorderParams.base]
  | resume file path =>
    simp only [newRolloutRecorder] at h
    split at h
    · cases h
    · next w' hopen =>
      cases hord : ordinalStateForRollout codec w'.file path with
      | error e => rw [hord] at h; cases h
      | ok state =>
        rw [hord] at h
        cases h
        -- Opening the file changed none of its records.
        have hbefore : Consistent codec (codec.records file) (firstOrdinal state (codec.records file)) none allowed
            { writer := true, deferredLogFileInfo := false, sessionMeta := none,
              ordinalState := stateAt (firstOrdinal state (codec.records file)) 0 } { file } := by
          refine fun _ => ⟨[], 0, ?_⟩
          constructor <;> simp [Recorded]
        obtain ⟨hafter, hterm⟩ := openLogFile_spec io hnil hbefore
        rw [hopen] at hafter hterm
        have hstate := ordinalStateForRollout_eq hord
        have hsame := openLogFile_records io hnil { file }
        rw [hopen] at hsame
        rw [hsame] at hstate
        exact ⟨hafter.of_eq hstate rfl rfl, fun _ => hterm rfl⟩

end RolloutWriter

/-- **The writer neither loses nor duplicates records**, as long as no failed write leaves its whole line. -/
theorem rolloutWriter_points {params : RolloutRecorderParams} {s : RolloutWriterState} {w : World}
    (hnew : newRolloutRecorder codec io params = .ok (s, w)) (cmds : List RolloutCmd)
    (hlaw : codec.Lawful (fun t => ∃ n, (io n).timestamp = t)
      (GivesOrdinal (firstOrdinal s.ordinalState (params.base codec))) (params.Writes io cmds))
    (hclean : (rolloutWriter codec io s w cmds).2.Clean) :
    ∀ p ∈ (rolloutWriter codec io s w cmds).2.points,
      p.Holds codec (params.base codec) (firstOrdinal s.ordinalState (params.base codec)) params.sessionMeta := by
  have hidle := @RolloutWriter.newRolloutRecorder_idle codec io (params.Writes io cmds) params s w hlaw.parse_nil hnew
  have hmeta : ∀ m, params.sessionMeta = some m → ∀ n, params.Writes io cmds (.sessionMeta { m with git := (io n).git }) :=
    fun m hm n => .inr ⟨m, n, hm, rfl⟩
  have hitems : ∀ items, .addItems items ∈ cmds → ∀ item ∈ items, params.Writes io cmds item :=
    fun items hm item hi => .inl ⟨items, hm, hi⟩
  obtain ⟨done, count, ha⟩ := (RolloutWriter.rolloutWriter_idle hlaw hmeta hidle hitems).1 hclean
  exact ha.points

/-! ## A run -/

/-- The line of the one item that the run below writes. -/
def deliveryLine : Bytes :=
  ascii ("\x7b\"timestamp\":\"2025-01-01T00:00:00.000Z\",\"type\":\"inter_agent_communication_metadata\"," ++
    "\"payload\":\x7b\"trigger_turn\":true\x7d\x7d")

/-- The codec on that line, and on the blank file the run resumes. -/
def deliveryCodec : LineCodec where
  encode _ _ _ := deliveryLine
  parse line := if line = deliveryLine then some ⟨none, .interAgentCommunicationMetadata true⟩ else none
  isBlank line := line.all fun byte => byte = 32 ∨ byte = 9 ∨ byte = newline ∨ byte = 13

/-- A writer whose first record write fails and leaves `cut` bytes of the line. -/
def failingIo (cut : Nat) (clock : Nat) : IoAnswer :=
  { ok := clock ≠ 1, cut, timestamp := "2025-01-01T00:00:00.000Z" }

def deliveryState : RolloutWriterState :=
  { writer := true, deferredLogFileInfo := false, sessionMeta := none, ordinalState := .legacy }

def deliveryWorld : World := ({ file := [] } : World).observe []

def deliveryCmds : List RolloutCmd := [.addItems [.interAgentCommunicationMetadata true], .flush]

theorem deliveryCodec_lawful (cut : Nat) : deliveryCodec.Lawful (fun t => ∃ n, (failingIo cut n).timestamp = t)
    (GivesOrdinal none) ((RolloutRecorderParams.resume [] "").Writes (failingIo cut) deliveryCmds) := by
  have hordinal {o : Option Nat} (h : GivesOrdinal none o) : o = none := by simpa using h.1
  have hitem {i : RolloutItem} (h : (RolloutRecorderParams.resume [] "").Writes (failingIo cut) deliveryCmds i) :
      i = .interAgentCommunicationMetadata true := by
    simpa [RolloutRecorderParams.Writes, RolloutRecorderParams.sessionMeta, deliveryCmds] using h
  have hparse (line : Bytes) : deliveryCodec.parse line =
      if line = deliveryLine then some ⟨none, .interAgentCommunicationMetadata true⟩ else none := rfl
  have hencode (t : String) (o : Option Nat) (i : RolloutItem) : deliveryCodec.encode t o i = deliveryLine := by
    simp only [deliveryCodec]
  refine ⟨?_, ?_, ?_, ?_⟩
  · rw [hparse, if_neg (by decide +kernel)]
  · intro t o i _ ho hi
    rw [hordinal ho, hitem hi, hencode, hparse, if_pos rfl]
  · intro t o i _ _ _ cut hcut
    rw [hencode] at hcut ⊢
    rw [hparse, if_neg]
    intro h
    have hlen := congrArg List.length h
    rw [List.length_take, Nat.min_eq_left (Nat.le_of_lt hcut)] at hlen
    exact absurd hlen (Nat.ne_of_lt hcut)
  · intro t o i _ _ _
    rw [hencode]
    decide +kernel

/-- A write cut in the middle of its line is retried on a line of its own. -/
theorem rolloutWriter_points_torn :
    (rolloutWriter deliveryCodec (failingIo 7) deliveryState deliveryWorld deliveryCmds).2.points.length = 8 ∧
    ∀ p ∈ (rolloutWriter deliveryCodec (failingIo 7) deliveryState deliveryWorld deliveryCmds).2.points,
      p.Holds deliveryCodec ((RolloutRecorderParams.resume [] "").base deliveryCodec) none none := by
  -- one evaluation for both, which share most of their terms
  obtain ⟨hlength, hclean⟩ :
      (rolloutWriter deliveryCodec (failingIo 7) deliveryState deliveryWorld deliveryCmds).2.points.length = 8 ∧
      (rolloutWriter deliveryCodec (failingIo 7) deliveryState deliveryWorld deliveryCmds).2.Clean := by
    unfold World.Clean
    decide +kernel
  exact ⟨hlength, @rolloutWriter_points deliveryCodec (failingIo 7) (.resume [] "") deliveryState deliveryWorld rfl deliveryCmds
    (deliveryCodec_lawful 7) hclean⟩

/-- A write cut right before its newline is a record already, and the retry writes it again. -/
theorem rolloutWriter_duplicates :
    newRolloutRecorder deliveryCodec (failingIo 200) (.resume [] "") = .ok (deliveryState, deliveryWorld) ∧
    ¬ ∀ p ∈ (rolloutWriter deliveryCodec (failingIo 200) deliveryState deliveryWorld deliveryCmds).2.points,
      p.Holds deliveryCodec ((RolloutRecorderParams.resume [] "").base deliveryCodec) none none := by
  refine ⟨rfl, fun h => ?_⟩
  obtain ⟨hlast, hbase⟩ :
      (rolloutWriter deliveryCodec (failingIo 200) deliveryState deliveryWorld deliveryCmds).2.points.getLast?.map
        (fun p => ((deliveryCodec.records p.file).length, p.added.length)) = some (2, 1) ∧
      ((RolloutRecorderParams.resume [] "").base deliveryCodec).length = 0 := by
    decide +kernel
  obtain ⟨p, hp, hlen⟩ := Option.map_eq_some_iff.1 hlast
  obtain ⟨done, count, hrecords, -, hdone, -⟩ := h p (List.mem_of_getLast? hp)
  have hfile := congrArg List.length hrecords
  rw [List.length_append, hbase, (Prod.mk.inj hlen).1] at hfile
  rcases hdone with ⟨hm, -⟩ | hr
  · cases hm
  · have hitems := congrArg List.length hr
    rw [List.length_map, List.length_take, (Prod.mk.inj hlen).2] at hitems
    omega

end Codex
