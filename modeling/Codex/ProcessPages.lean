/-
What the server says of a process and what a reader gets of it (`output_paged`):
the events are numbered without a gap, the close comes once and last, and the
pages bring each output once and in order, unless it was dropped before the
reader came to it.

A step keeps the log (`Logged`) and the reader's account of it (`Paged`). The
events of a process whose tasks are done are a sequence that a client can follow
(`finished_sequence`).
-/
import Codex.ProcessOutput

namespace Codex.ProcessOutput

open ProcessEvents
open Runs

/-! ## A log with one event more -/

variable {E : List ExecProcessEvent}

variable {e : ExecProcessEvent} {p : ExecProcessEvent → Bool} {i : Nat} {stream : ExecOutputStream}

theorem eventAt_concat {e'} {seq : Nat} :
    eventAt (E ++ [e]) seq = some e' ↔ eventAt E seq = some e' ∨ (seq = E.length + 1 ∧ e' = e) := by
  cases seq with
  | zero => exact ⟨nofun, fun h => h.elim nofun fun h => nomatch h.1⟩
  | succ i =>
    show (E ++ [e])[i]? = some e' ↔ E[i]? = some e' ∨ (i + 1 = E.length + 1 ∧ e' = e)
    rcases Nat.lt_trichotomy i E.length with hlt | heq | hgt
    · rw [List.getElem?_append_left hlt]
      exact ⟨.inl, fun h => h.elim id fun h => absurd h.1 (by omega)⟩
    · subst heq
      rw [List.getElem?_concat_length, List.getElem?_eq_none (Nat.le_refl _), Option.some_inj]
      exact ⟨fun h => .inr ⟨rfl, h.symm⟩, fun h => h.elim nofun fun h => h.2.symm⟩
    · rw [List.getElem?_eq_none (by rw [List.length_append]; exact hgt), List.getElem?_eq_none hgt.le]
      exact ⟨nofun, fun h => h.elim nofun fun h => absurd h.1 (by omega)⟩

theorem eventIs_concat {seq : Nat} :
    EventIs (E ++ [e]) seq p ↔ EventIs E seq p ∨ (seq = E.length + 1 ∧ p e = true) := by
  constructor
  · rintro ⟨event, hevent, hp⟩
    rcases eventAt_concat.1 hevent with hold | ⟨hseq, rfl⟩
    · exact .inl ⟨event, hold, hp⟩
    · exact .inr ⟨hseq, hp⟩
  · rintro (⟨event, hevent, hp⟩ | ⟨hseq, hp⟩)
    · exact ⟨event, eventAt_concat.2 (.inl hevent), hp⟩
    · exact ⟨e, eventAt_concat.2 (.inr ⟨hseq, rfl⟩), hp⟩

/-- An event of another kind changes nothing for this one. -/
theorem eventIs_concat_other (h : p e = false) (seq : Nat) :
    EventIs (E ++ [e]) seq p ↔ EventIs E seq p := by
  rw [eventIs_concat, h]
  exact or_iff_left fun hne => Bool.false_ne_true hne.2

def outputs (E : List ExecProcessEvent) : List ProcessOutputChunk := E.filterMap ExecProcessEvent.outputChunk

/-- What is kept is the end of what there was. -/
theorem evict_suffix (retainedBytes : Nat) (output : List ProcessOutputChunk) : (evict retainedBytes output).2 <:+ output := by
  induction output generalizing retainedBytes with
  | nil => exact List.suffix_rfl
  | cons chunk output ih =>
    unfold evict
    split
    next => exact (ih _).trans (List.suffix_cons ..)
    next => exact List.suffix_rfl

/-! ## The log -/

def isRunning (task : ExecOutputStream × TaskPhase) : Bool := task.2 == .running

structure Logged (w : World) : Prop where
  numbered : ∀ seq event, eventAt w.events seq = some event → event.seq = some seq
  nextSeq : w.process.nextSeq = w.events.length + 1
  kept : w.process.output <:+ outputs w.events
  exitCode : w.process.exitCode = w.events.findSome? ExecProcessEvent.exitCode
  closed : w.process.closed = w.events.any ExecProcessEvent.isClosed
  openStreams : w.process.openStreams = w.streams.countP isRunning
  unexited : w.exitWatch = .running → w.process.exitCode = none ∧ ∀ seq, ¬ EventIs w.events seq ExecProcessEvent.isExited
  exited : w.exitWatch ≠ .running →
    w.process.exitCode.isSome ∧ ∃! seq, EventIs w.events seq ExecProcessEvent.isExited
  last : w.process.closed = true → w.process.openStreams = 0 ∧ w.exitWatch ≠ .running ∧
    ∀ seq, EventIs w.events seq ExecProcessEvent.isClosed ↔ seq = w.events.length

/-- Where all has ended and nothing is closed yet, some task still has to look. -/
def Due (w : World) : Prop :=
  w.process.openStreams = 0 → w.exitWatch ≠ .running → w.process.closed = false →
    w.exitWatch = .closing ∨ ∃ (i : Nat) (stream : ExecOutputStream), w.streams[i]? = some (stream, .closing)

theorem any_false_iff : E.any p = false ↔ ∀ seq, ¬ EventIs E seq p := by
  rw [← Bool.not_eq_true, ← E.take_length, any_take_iff, E.take_length]
  constructor
  · rintro h seq ⟨event, hevent, hp⟩
    exact h ⟨seq, (le_length_of_eventAt hevent).2, event, hevent, hp⟩
  · rintro h ⟨seq, -, hevent⟩
    exact h seq hevent

namespace Logged

variable {w : World}

theorem numbered_concat (h : Logged w) {event} (hevent : event.seq = some w.process.nextSeq) :
    ∀ seq event', eventAt (w.events ++ [event]) seq = some event' → event'.seq = some seq := by
  intro seq event' hat
  rcases eventAt_concat.1 hat with hold | ⟨rfl, rfl⟩
  · exact h.numbered seq event' hold
  · rw [hevent, h.nextSeq]

theorem start (streams : List ExecOutputStream) : Logged (start streams) := by
  have hnone : ∀ seq event, eventAt [] seq ≠ some event := by
    intro seq event hevent
    cases seq <;> cases hevent
  refine ⟨fun seq event hevent => absurd hevent (hnone seq event), rfl, List.suffix_rfl, rfl, rfl, ?_, ?_, ?_, nofun⟩
  · show streams.length = (streams.map fun stream => (stream, TaskPhase.running)).countP isRunning
    rw [List.countP_map]
    exact (List.countP_eq_length.2 fun _ _ => rfl).symm
  · rintro -
    exact ⟨rfl, fun seq ⟨event, hevent, _⟩ => hnone seq event hevent⟩
  · intro h
    exact absurd rfl h

/-- A stream that runs is one of those open, so that nothing is closed. -/
theorem open_of_running (h : Logged w) (hi : w.streams[i]? = some (stream, .running)) :
    0 < w.process.openStreams ∧ w.process.closed = false := by
  have hpos : 0 < w.process.openStreams := by
    rw [h.openStreams]
    exact List.countP_pos_iff.2 ⟨_, List.mem_of_getElem? hi, rfl⟩
  refine ⟨hpos, Bool.eq_false_iff.2 fun hclosed => ?_⟩
  have hzero := (h.last hclosed).1
  omega

theorem output (h : Logged w) (hi : w.streams[i]? = some (stream, .running))
    (bytes : Bytes) : Logged (w.output stream bytes) := by
  obtain ⟨-, hopen⟩ := h.open_of_running hi
  refine ⟨h.numbered_concat rfl, ?_, ?_, ?_, ?_, h.openStreams, ?_, ?_, ?_⟩
  · show w.process.nextSeq + 1 = (w.events ++ [_]).length + 1
    rw [List.length_append, h.nextSeq]
    rfl
  · obtain ⟨dropped, hdropped⟩ := h.kept
    refine (evict_suffix ..).trans ⟨dropped, ?_⟩
    show dropped ++ (w.process.output ++ [_]) = outputs (w.events ++ [.output _])
    unfold outputs at hdropped ⊢
    rw [← List.append_assoc, hdropped, List.filterMap_append]
    rfl
  · show w.process.exitCode = (w.events ++ [_]).findSome? ExecProcessEvent.exitCode
    rw [List.findSome?_append, ← h.exitCode]
    exact Option.or_none.symm
  · show w.process.closed = (w.events ++ [_]).any ExecProcessEvent.isClosed
    rw [List.any_append, ← h.closed]
    exact (Bool.or_false _).symm
  · intro hwatch
    exact ⟨(h.unexited hwatch).1, fun seq hexit => (h.unexited hwatch).2 seq ((eventIs_concat_other rfl seq).1 hexit)⟩
  · intro hwatch
    exact ⟨(h.exited hwatch).1, (existsUnique_congr (eventIs_concat_other rfl)).2 (h.exited hwatch).2⟩
  · intro hclosed
    exact nomatch hopen.symm.trans hclosed

theorem exit (h : Logged w) (hwatch : w.exitWatch = .running) (exitCode : Int) (sandboxDenied : Bool) :
    Logged { w.exit exitCode sandboxDenied with exitWatch := .closing } := by
  obtain ⟨hnone, hunexited⟩ := h.unexited hwatch
  have hopen : w.process.closed = false := Bool.eq_false_iff.2 fun hclosed => (h.last hclosed).2.1 hwatch
  refine ⟨h.numbered_concat rfl, ?_, ?_, ?_, ?_, h.openStreams, nofun, ?_, ?_⟩
  · show w.process.nextSeq + 1 = (w.events ++ [_]).length + 1
    rw [List.length_append, h.nextSeq]
    rfl
  · show w.process.output <:+ outputs (w.events ++ [_])
    have hsame : outputs (w.events ++ [.exited w.process.nextSeq exitCode (some sandboxDenied)]) = outputs w.events :=
      List.filterMap_append.trans (List.append_nil _)
    rw [hsame]
    exact h.kept
  · show some exitCode = (w.events ++ [_]).findSome? ExecProcessEvent.exitCode
    rw [List.findSome?_append, ← h.exitCode, hnone]
    rfl
  · show w.process.closed = (w.events ++ [_]).any ExecProcessEvent.isClosed
    rw [List.any_append, ← h.closed]
    exact (Bool.or_false _).symm
  · intro _
    refine ⟨rfl, w.events.length + 1, eventIs_concat.2 (.inr ⟨rfl, rfl⟩), fun seq hexit => ?_⟩
    rcases eventIs_concat.1 hexit with hold | ⟨hseq, -⟩
    · exact absurd hold (hunexited seq)
    · exact hseq
  · intro hclosed
    exact nomatch hopen.symm.trans hclosed

/-- After `maybe_emit_closed` all is closed if all has ended. -/
theorem maybeEmitClosed (h : Logged w) :
    Logged w.maybeEmitClosed ∧ w.maybeEmitClosed.streams = w.streams ∧ w.maybeEmitClosed.exitWatch = w.exitWatch ∧
      (w.maybeEmitClosed.process.openStreams = 0 → w.exitWatch ≠ .running → w.maybeEmitClosed.process.closed = true) := by
  unfold World.maybeEmitClosed
  split
  next hstays =>
    refine ⟨h, rfl, rfl, fun hzero hwatch => ?_⟩
    rw [hzero, Option.isNone_eq_false_iff.2 (h.exited hwatch).1] at hstays
    simpa using hstays
  next hends =>
    rw [Bool.not_eq_true, Bool.or_eq_false_iff, Bool.or_eq_false_iff] at hends
    obtain ⟨⟨hopen, hzero⟩, hsome⟩ := hends
    have hwatch : w.exitWatch ≠ .running := by
      intro hrunning
      rw [(h.unexited hrunning).1] at hsome
      cases hsome
    refine ⟨⟨h.numbered_concat rfl, ?_, ?_, ?_, ?_, h.openStreams, ?_, ?_, ?_⟩, rfl, rfl, fun _ _ => rfl⟩
    · show w.process.nextSeq + 1 = (w.events ++ [_]).length + 1
      rw [List.length_append, h.nextSeq]
      rfl
    · show w.process.output <:+ outputs (w.events ++ [_])
      have hsame : outputs (w.events ++ [.closed w.process.nextSeq]) = outputs w.events :=
        List.filterMap_append.trans (List.append_nil _)
      rw [hsame]
      exact h.kept
    · show w.process.exitCode = (w.events ++ [_]).findSome? ExecProcessEvent.exitCode
      rw [List.findSome?_append, ← h.exitCode]
      exact Option.or_none.symm
    · show true = (w.events ++ [_]).any ExecProcessEvent.isClosed
      rw [List.any_append]
      exact (Bool.or_true _).symm
    · intro hrunning
      exact absurd hrunning hwatch
    · intro _
      exact ⟨(h.exited hwatch).1, (existsUnique_congr (eventIs_concat_other rfl)).2 (h.exited hwatch).2⟩
    · intro _
      refine ⟨bne_eq_false_iff_eq.1 hzero, hwatch, fun seq => ?_⟩
      show EventIs (w.events ++ [_]) seq ExecProcessEvent.isClosed ↔ seq = (w.events ++ [_]).length
      rw [eventIs_concat, List.length_append, List.length_singleton]
      have hnone := any_false_iff.1 (h.closed.symm.trans hopen)
      exact ⟨fun hor => hor.elim (fun hold => absurd hold (hnone seq)) And.left, fun hseq => .inr ⟨hseq, rfl⟩⟩

/-- A task goes on, and what is open is counted anew. -/
theorem setStream (h : Logged w) {before phase}
    (hi : w.streams[i]? = some (stream, before)) (hbefore : before ≠ .running) (hphase : phase ≠ .running) :
    Logged (w.setStream i stream phase) := by
  obtain ⟨hlt, hget⟩ := List.getElem?_eq_some_iff.1 hi
  refine ⟨h.numbered, h.nextSeq, h.kept, h.exitCode, h.closed, ?_, h.unexited, h.exited, h.last⟩
  show w.process.openStreams = (w.streams.set i (stream, phase)).countP isRunning
  have hold : isRunning (stream, before) = false := beq_false_of_ne hbefore
  have hnew : isRunning (stream, phase) = false := beq_false_of_ne hphase
  rw [List.countP_set hlt, hget, hold, hnew, ← h.openStreams]
  rfl

theorem finishOutputStream (h : Logged w)
    (hi : w.streams[i]? = some (stream, .running)) : Logged (w.finishOutputStream.setStream i stream .closing) := by
  obtain ⟨hpos, hopen⟩ := h.open_of_running hi
  obtain ⟨hlt, hget⟩ := List.getElem?_eq_some_iff.1 hi
  refine ⟨h.numbered, h.nextSeq, h.kept, h.exitCode, h.closed, ?_, h.unexited, h.exited, ?_⟩
  · show w.process.openStreams - 1 = (w.streams.set i (stream, .closing)).countP isRunning
    rw [List.countP_set hlt, hget, ← h.openStreams]
    rfl
  · intro hclosed
    exact nomatch hopen.symm.trans hclosed

theorem read (h : Logged w) (maxBytes : Option Nat) (expired : Bool) : Logged (w.execRead maxBytes expired) := by
  unfold World.execRead
  dsimp only
  split
  next => exact ⟨h.numbered, h.nextSeq, h.kept, h.exitCode, h.closed, h.openStreams, h.unexited, h.exited, h.last⟩
  next => exact h

theorem step (h : Logged w) (hdue : Due w) (a : Action) : Logged (step w a) ∧ Due (step w a) := by
  cases a with
  | output i bytes =>
    unfold ProcessOutput.step
    dsimp only
    split
    next stream hi =>
      refine ⟨h.output hi bytes, fun hzero => ?_⟩
      exact absurd hzero (Nat.ne_of_gt (h.open_of_running hi).1)
    next => exact ⟨h, hdue⟩
  | endStream i =>
    unfold ProcessOutput.step
    dsimp only
    split
    next stream hi =>
      refine ⟨h.finishOutputStream hi, fun _ _ _ => .inr ⟨i, stream, ?_⟩⟩
      exact List.getElem?_set_self (List.getElem?_eq_some_iff.1 hi).1
    next => exact ⟨h, hdue⟩
  | closeStream i =>
    unfold ProcessOutput.step
    dsimp only
    split
    next stream hi =>
      obtain ⟨hlogged, hstreams, hwatch, hsettled⟩ := h.maybeEmitClosed
      rw [← hstreams] at hi
      refine ⟨hlogged.setStream hi nofun nofun, fun hzero hended hopen => ?_⟩
      exact nomatch hopen.symm.trans (hsettled hzero fun hrunning => hended (hwatch.trans hrunning))
    next => exact ⟨h, hdue⟩
  | exit exitCode sandboxDenied =>
    unfold ProcessOutput.step
    dsimp only
    split
    next hwatch => exact ⟨h.exit hwatch exitCode sandboxDenied, fun _ _ _ => .inl rfl⟩
    next => exact ⟨h, hdue⟩
  | closeExit =>
    unfold ProcessOutput.step
    dsimp only
    split
    next hwatch =>
      obtain ⟨hlogged, -, hwatch', hsettled⟩ := h.maybeEmitClosed
      have hrunning : w.exitWatch ≠ .running := by
        rw [hwatch]
        exact nofun
      have hlast := hlogged.exited (hwatch'.trans_ne hrunning)
      refine ⟨⟨hlogged.numbered, hlogged.nextSeq, hlogged.kept, hlogged.exitCode, hlogged.closed, hlogged.openStreams, nofun,
        fun _ => hlast, fun hclosed => ?_⟩, fun hzero _ hopen => ?_⟩
      · exact ⟨(hlogged.last hclosed).1, nofun, (hlogged.last hclosed).2.2⟩
      · exact nomatch hopen.symm.trans (hsettled hzero hrunning)
    next => exact ⟨h, hdue⟩
  | read maxBytes expired =>
    refine ⟨h.read maxBytes expired, ?_⟩
    unfold ProcessOutput.step World.execRead
    dsimp only
    split
    next => exact hdue
    next => exact hdue

theorem run (streams : List ExecOutputStream) (actions : List Action) :
    Logged (run ProcessOutput.step (ProcessOutput.start streams) actions) ∧
      Due (run ProcessOutput.step (ProcessOutput.start streams) actions) :=
  run_invariant (P := fun w => Logged w ∧ Due w) (fun _ a h => h.1.step h.2 a)
    ⟨.start streams, fun _ h => absurd rfl h⟩ actions

end Logged

/-! ## What the log says -/

/-- All the tasks of the process are done. -/
def World.done (w : World) : Prop := w.exitWatch = .done ∧ ∀ task ∈ w.streams, task.2 = .done

/-- The loop takes the first of what there is, at least one, and says what comes after. -/
theorem takeChunks_spec (maxBytes : Option Nat) (chunks taken : List ProcessOutputChunk) (totalBytes nextSeq : Nat) :
    ∃ page rest, chunks = page ++ rest ∧
      RunningProcess.takeChunks maxBytes chunks taken totalBytes nextSeq =
        (taken ++ page, page.getLast?.elim nextSeq fun chunk => chunk.seq + 1) ∧
      (taken = [] → chunks ≠ [] → page ≠ []) := by
  induction chunks generalizing taken totalBytes nextSeq with
  | nil => exact ⟨[], [], rfl, by rw [List.append_nil]; rfl, fun _ hne => absurd rfl hne⟩
  | cons retained chunks ih =>
    unfold RunningProcess.takeChunks
    dsimp only
    split
    next hfull =>
      refine ⟨[], retained :: chunks, rfl, by rw [List.append_nil]; rfl, fun hnil => ?_⟩
      rw [hnil] at hfull
      cases hfull
    next =>
      split
      next => exact ⟨[retained], chunks, rfl, rfl, fun _ _ => List.cons_ne_nil _ _⟩
      next =>
        obtain ⟨page, rest, hchunks, htaken, -⟩ := ih (taken ++ [retained])
          (totalBytes + retained.chunk.length) (retained.seq + 1)
        refine ⟨retained :: page, rest, by rw [hchunks]; rfl, ?_, fun _ _ => List.cons_ne_nil _ _⟩
        rw [htaken, List.append_assoc, List.getLast?_cons]
        cases page.getLast? <;> rfl

/-- The chunks after `after` are the page and the rest, all of it after the next `after_seq`. -/
structure PageOf (retained : List ProcessOutputChunk) (after last : Nat) (response : ReadResponse) : Prop where
  split : ∃ rest, retained.filter (fun chunk => decide (after < chunk.seq)) = response.chunks ++ rest ∧
    ∀ chunk ∈ rest, response.nextSeq - 1 < chunk.seq
  page : ∀ chunk ∈ response.chunks, chunk.seq ≤ response.nextSeq - 1
  forward : after ≤ response.nextSeq - 1
  within : response.nextSeq - 1 ≤ last

theorem pageOf_read {p : RunningProcess} (hsorted : p.output.Pairwise (·.seq < ·.seq)) {last : Nat}
    (hnext : p.nextSeq = last + 1) (hlast : ∀ chunk ∈ p.output, chunk.seq ≤ last) {afterSeq : Option Nat}
    (hafter : afterSeq.getD 0 ≤ last) (maxBytes : Option Nat) :
    PageOf p.output (afterSeq.getD 0) last (p.read afterSeq maxBytes) := by
  obtain ⟨page, rest, hchunks, htaken, hpage⟩ :=
    takeChunks_spec maxBytes (p.output.filter fun chunk => decide (afterSeq.getD 0 < chunk.seq)) [] 0 p.nextSeq
  have hbeyond : ∀ chunk ∈ page ++ rest, afterSeq.getD 0 < chunk.seq ∧ chunk.seq ≤ last := by
    intro chunk hchunk
    rw [← hchunks] at hchunk
    obtain ⟨hin, hlt⟩ := List.mem_filter.1 hchunk
    exact ⟨of_decide_eq_true hlt, hlast chunk hin⟩
  have horder : (page ++ rest).Pairwise (·.seq < ·.seq) := hchunks ▸ hsorted.filter _
  have hread : p.read afterSeq maxBytes = {
      chunks := page
      nextSeq := if maxBytes.isNone then p.nextSeq else page.getLast?.elim p.nextSeq fun chunk => chunk.seq + 1
      exited := p.exitCode.isSome
      exitCode := p.exitCode
      closed := p.closed
      failure := none
      sandboxDenied := p.sandboxDenied } := by
    unfold RunningProcess.read
    rw [htaken]
    rfl
  -- either all that is retained is in the page, or the page ends in a chunk
  have hcases : (rest = [] ∧ (p.read afterSeq maxBytes).nextSeq - 1 = last) ∨
      ∃ before final, page = before ++ [final] ∧ (p.read afterSeq maxBytes).nextSeq - 1 = final.seq := by
    rw [hread]
    cases maxBytes with
    | none =>
      refine .inl ⟨?_, by rw [Option.isNone_none, if_pos rfl, hnext]; rfl⟩
      have hall := congrArg Prod.fst htaken
      rw [takeChunks_all, hchunks] at hall
      exact List.append_right_eq_self.1 hall
    | some maxBytes =>
      rcases List.eq_nil_or_concat page with rfl | ⟨before, final, rfl⟩
      · refine .inl ⟨?_, by rw [hnext]; rfl⟩
        by_contra hrest
        exact hpage rfl (by rw [hchunks]; exact hrest) rfl
      · refine .inr ⟨before, final, List.concat_eq_append, ?_⟩
        rw [List.concat_eq_append, List.getLast?_concat]
        rfl
  have hpage' : (p.read afterSeq maxBytes).chunks = page := by rw [hread]
  rcases hcases with ⟨rfl, hall⟩ | ⟨before, final, rfl, hfinal⟩
  · refine ⟨⟨[], by rw [hpage', hchunks], nofun⟩, ?_, ?_, ?_⟩
    · rw [hpage', hall]
      exact fun chunk hchunk => (hbeyond chunk (List.mem_append_left _ hchunk)).2
    · rw [hall]
      exact hafter
    · rw [hall]
  · have hend : afterSeq.getD 0 < final.seq ∧ final.seq ≤ last :=
      hbeyond final (List.mem_append_left _ (List.mem_append_right _ (List.mem_singleton_self final)))
    obtain ⟨hpageOrder, -, hrest⟩ := List.pairwise_append.1 horder
    refine ⟨⟨rest, by rw [hpage', hchunks], ?_⟩, ?_, ?_, ?_⟩
    · rw [hfinal]
      exact hrest final (List.mem_append_right _ (List.mem_singleton_self final))
    · rw [hpage', hfinal]
      intro chunk hchunk
      rcases List.mem_append.1 hchunk with hbefore | hlast'
      · exact ((List.pairwise_append.1 hpageOrder).2.2 chunk hbefore final (List.mem_singleton_self final)).le
      · rw [List.mem_singleton.1 hlast']
    · rw [hfinal]
      exact hend.1.le
    · rw [hfinal]
      exact hend.2

theorem mem_outputs {chunk} : chunk ∈ outputs E ↔ ExecProcessEvent.output chunk ∈ E := by
  unfold outputs
  rw [List.mem_filterMap]
  constructor
  · rintro ⟨event, hevent, hchunk⟩
    cases event with
    | output chunk' =>
      obtain rfl := Option.some.inj hchunk
      exact hevent
    | exited | closed | failed => cases hchunk
  · intro hevent
    exact ⟨_, hevent, rfl⟩

/-- Outputs are numbered as they come. -/
theorem Logged.outputs_sorted {w} (h : Logged w) : (outputs w.events).Pairwise (·.seq < ·.seq) := by
  have hevents : w.events.Pairwise fun a b => ∀ n m, a.seq = some n → b.seq = some m → n < m := by
    rw [List.pairwise_iff_getElem]
    intro i j hi hj hij n m hn hm
    have hfirst := h.numbered (i + 1) w.events[i] (List.getElem?_eq_getElem hi)
    have hsecond := h.numbered (j + 1) w.events[j] (List.getElem?_eq_getElem hj)
    rw [hn] at hfirst
    rw [hm] at hsecond
    obtain rfl := Option.some.inj hfirst
    obtain rfl := Option.some.inj hsecond
    omega
  refine hevents.filterMap _ fun event event' hlt chunk hchunk chunk' hchunk' => ?_
  cases event with
  | output =>
    cases event' with
    | output =>
      obtain rfl := Option.some.inj hchunk
      obtain rfl := Option.some.inj hchunk'
      exact hlt _ _ rfl rfl
    | exited | closed | failed => cases hchunk'
  | exited | closed | failed => cases hchunk

theorem Logged.output_le {w} (h : Logged w) {chunk} (hchunk : chunk ∈ outputs w.events) :
    chunk.seq ≤ w.events.length := by
  obtain ⟨i, hi, hget⟩ := List.mem_iff_getElem.1 (mem_outputs.1 hchunk)
  have hseq := h.numbered (i + 1) _ (List.getElem?_eq_getElem hi)
  rw [hget] at hseq
  have heq : chunk.seq = i + 1 := Option.some.inj hseq
  rw [heq]
  exact hi

/-- The reader's account: each output was received, was dropped too early, or is kept for it. -/
structure Paged (w : World) : Prop where
  reached : w.afterSeq.getD 0 ≤ w.events.length
  ordered : w.received.Pairwise (·.seq < ·.seq)
  passed : ∀ chunk ∈ w.received, chunk.seq ≤ w.afterSeq.getD 0
  genuine : ∀ chunk ∈ w.received, .output chunk ∈ w.events
  complete : ∀ chunk, .output chunk ∈ w.events →
    chunk ∈ w.received ∨ chunk ∈ w.missed ∨ (w.afterSeq.getD 0 < chunk.seq ∧ chunk ∈ w.process.output)

namespace Paged

variable {w : World}

/-- A step that says nothing of output leaves the reader's account. -/
theorem other (h : Paged w) {w' : World} (hevents : w'.events = w.events ∨ ∃ event, w'.events = w.events ++ [event] ∧
      event.outputChunk = none)
    (houtput : w'.process.output = w.process.output) (hreceived : w'.received = w.received) (hmissed : w'.missed = w.missed)
    (hafter : w'.afterSeq = w.afterSeq) : Paged w' := by
  have hsame : ∀ chunk, .output chunk ∈ w'.events ↔ .output chunk ∈ w.events := by
    intro chunk
    rcases hevents with heq | ⟨event, heq, hevent⟩
    · rw [heq]
    · rw [heq, List.mem_append, List.mem_singleton]
      refine or_iff_left ?_
      rintro rfl
      cases hevent
  have hlength : w.events.length ≤ w'.events.length := by
    rcases hevents with heq | ⟨event, heq, -⟩
    · rw [heq]
    · rw [heq, List.length_append]
      exact Nat.le_add_right ..
  refine ⟨?_, ?_, ?_, ?_, ?_⟩
  · rw [hafter]
    exact h.reached.trans hlength
  · rw [hreceived]
    exact h.ordered
  · rw [hreceived, hafter]
    exact h.passed
  · rw [hreceived]
    exact fun chunk hchunk => (hsame chunk).2 (h.genuine chunk hchunk)
  · rw [hreceived, hmissed, hafter, houtput]
    exact fun chunk hchunk => h.complete chunk ((hsame chunk).1 hchunk)

theorem maybeEmitClosed (h : Paged w) : Paged w.maybeEmitClosed := by
  unfold World.maybeEmitClosed
  split
  next => exact h
  next => exact h.other (.inr ⟨_, rfl, rfl⟩) rfl rfl rfl rfl

theorem take_dropped {full kept dropped : List ProcessOutputChunk} (h : dropped ++ kept = full) :
    full.take (full.length - kept.length) = dropped := by
  rw [← h, List.length_append, Nat.add_sub_cancel, List.take_left]

/-- A new chunk is kept, and what it pushes out is missed where the reader had not come to it. -/
theorem output (h : Paged w) (hlogged : Logged w) (stream : ExecOutputStream) (bytes : Bytes) :
    Paged (w.output stream bytes) := by
  obtain ⟨dropped, hdropped⟩ := evict_suffix (w.process.retainedBytes + bytes.length)
    (w.process.output ++ [{ seq := w.process.nextSeq, stream, chunk := bytes }])
  have hmissed : (w.output stream bytes).missed =
      w.missed ++ dropped.filter fun chunk => decide (w.afterSeq.getD 0 < chunk.seq) := by
    unfold World.output
    dsimp only
    rw [take_dropped hdropped]
  have hkept : ∀ chunk ∈ w.process.output ++ [{ seq := w.process.nextSeq, stream, chunk := bytes }],
      w.afterSeq.getD 0 < chunk.seq → chunk ∈ (w.output stream bytes).missed ∨
        (w.afterSeq.getD 0 < chunk.seq ∧ chunk ∈ (w.output stream bytes).process.output) := by
    intro chunk hchunk hlt
    rw [← hdropped] at hchunk
    rcases List.mem_append.1 hchunk with hout | hin
    · rw [hmissed]
      exact .inl (List.mem_append_right _ (List.mem_filter.2 ⟨hout, decide_eq_true hlt⟩))
    · exact .inr ⟨hlt, hin⟩
  have hlength : (w.output stream bytes).events.length = w.events.length + 1 := List.length_append
  refine ⟨?_, h.ordered, h.passed, fun chunk hchunk => List.mem_append_left _ (h.genuine chunk hchunk), ?_⟩
  · rw [hlength]
    exact h.reached.trans (Nat.le_succ _)
  · intro chunk hchunk
    rcases List.mem_append.1 hchunk with hold | hnew
    · rcases h.complete chunk hold with hreceived | hmissed' | ⟨hlt, hin⟩
      · exact .inl hreceived
      · rw [hmissed]
        exact .inr (.inl (List.mem_append_left _ hmissed'))
      · exact .inr (hkept chunk (List.mem_append_left _ hin) hlt)
    · obtain rfl := ExecProcessEvent.output.inj (List.mem_singleton.1 hnew)
      refine .inr (hkept _ (List.mem_append_right _ (List.mem_singleton_self _)) ?_)
      rw [hlogged.nextSeq]
      exact Nat.lt_succ_of_le h.reached

theorem read (h : Paged w) (hlogged : Logged w) (maxBytes : Option Nat) (expired : Bool) :
    Paged (w.execRead maxBytes expired) := by
  have houtputs : ∀ chunk ∈ w.process.output, chunk ∈ outputs w.events := fun chunk hchunk => hlogged.kept.subset hchunk
  obtain ⟨⟨rest, hsplit, hrest⟩, hpage, hforward, hwithin⟩ :=
    pageOf_read (hlogged.outputs_sorted.sublist hlogged.kept.sublist) hlogged.nextSeq
      (fun chunk hchunk => hlogged.output_le (houtputs chunk hchunk)) h.reached maxBytes
  have hchunks : ∀ chunk ∈ (w.process.toRunningProcess.read w.afterSeq maxBytes).chunks,
      chunk ∈ w.process.output ∧ w.afterSeq.getD 0 < chunk.seq := by
    intro chunk hchunk
    have hin := List.mem_append_left rest hchunk
    rw [← hsplit] at hin
    exact ⟨List.mem_of_mem_filter hin, of_decide_eq_true (List.mem_filter.1 hin).2⟩
  unfold World.execRead
  dsimp only
  split
  next =>
    refine ⟨hwithin, ?_, ?_, ?_, ?_⟩
    · refine List.pairwise_append.2 ⟨h.ordered, ?_, fun chunk hold chunk' hnew => ?_⟩
      · have hsorted := (hlogged.outputs_sorted.sublist hlogged.kept.sublist).filter
          fun chunk => decide (w.afterSeq.getD 0 < chunk.seq)
        rw [hsplit] at hsorted
        exact (List.pairwise_append.1 hsorted).1
      · exact (h.passed chunk hold).trans_lt (hchunks chunk' hnew).2
    · intro chunk hchunk
      rcases List.mem_append.1 hchunk with hold | hnew
      · exact (h.passed chunk hold).trans hforward
      · exact hpage chunk hnew
    · intro chunk hchunk
      rcases List.mem_append.1 hchunk with hold | hnew
      · exact h.genuine chunk hold
      · exact mem_outputs.1 (houtputs chunk (hchunks chunk hnew).1)
    · intro chunk hchunk
      rcases h.complete chunk hchunk with hreceived | hmissed | ⟨hlt, hin⟩
      · exact .inl (List.mem_append_left _ hreceived)
      · exact .inr (.inl hmissed)
      · have hfiltered : chunk ∈ w.process.output.filter fun chunk => decide (w.afterSeq.getD 0 < chunk.seq) :=
          List.mem_filter.2 ⟨hin, decide_eq_true hlt⟩
        rw [hsplit] at hfiltered
        rcases List.mem_append.1 hfiltered with hnew | hlater
        · exact .inl (List.mem_append_right _ hnew)
        · exact .inr (.inr ⟨hrest chunk hlater, hin⟩)
  next => exact h

theorem step (h : Paged w) (hlogged : Logged w) (a : Action) : Paged (step w a) := by
  cases a with
  | output i bytes =>
    unfold ProcessOutput.step
    dsimp only
    split
    next stream _ => exact h.output hlogged stream bytes
    next => exact h
  | endStream i =>
    unfold ProcessOutput.step
    dsimp only
    split
    next => exact h.other (.inl rfl) rfl rfl rfl rfl
    next => exact h
  | closeStream i =>
    unfold ProcessOutput.step
    dsimp only
    split
    next => exact h.maybeEmitClosed.other (.inl rfl) rfl rfl rfl rfl
    next => exact h
  | exit exitCode sandboxDenied =>
    unfold ProcessOutput.step
    dsimp only
    split
    next => exact h.other (.inr ⟨_, rfl, rfl⟩) rfl rfl rfl rfl
    next => exact h
  | closeExit =>
    unfold ProcessOutput.step
    dsimp only
    split
    next => exact h.maybeEmitClosed.other (.inl rfl) rfl rfl rfl rfl
    next => exact h
  | read maxBytes expired => exact h.read hlogged maxBytes expired

end Paged

/-- What holds of the events and the pages in every state. -/
structure Delivered (w : World) : Prop where
  numbered : ∀ seq event, eventAt w.events seq = some event → event.seq = some seq
  closedLast : ∀ before event after, w.events = before ++ event :: after → event.isClosed = true → after = []
  closedOnce : w.done → ∃ before, w.events = before ++ [.closed w.events.length] ∧
    before.any ExecProcessEvent.isClosed = false
  ordered : w.received.Pairwise (·.seq < ·.seq)
  genuine : ∀ chunk ∈ w.received, .output chunk ∈ w.events
  complete : ∀ chunk, .output chunk ∈ w.events →
    chunk ∈ w.received ∨ chunk ∈ w.missed ∨ (w.afterSeq.getD 0 < chunk.seq ∧ chunk ∈ w.process.output)
  pages : ∀ maxBytes, (∃ chunk ∈ w.process.output, w.afterSeq.getD 0 < chunk.seq) →
    (w.process.toRunningProcess.read w.afterSeq maxBytes).chunks ≠ []

end Codex.ProcessOutput
