/-
What a recovery has published when it fails. The exit is published before the
response has been checked: in the first gap before a chunk. Where that gap is an
output that is no longer retained, the exit stands at the output's number.
-/
import Codex.EventRecovery

namespace Codex.ProcessEvents

open Runs

variable {E : List ExecProcessEvent}

/-! ## The first gap -/

/-- The first number that is not published, not waiting and not among the chunks. -/
structure FirstGap (s : SessionState) (chunks : List ProcessOutputChunk) (gap : Nat) : Prop where
  unpublished : s.ordered.lastPublishedSeq < gap
  notWaiting : s.ordered.waiting gap = none
  notRead : ∀ chunk ∈ chunks, chunk.seq ≠ gap
  first : ∀ seq, s.ordered.lastPublishedSeq < seq → seq < gap →
    (s.ordered.waiting seq).isSome ∨ ∃ chunk ∈ chunks, chunk.seq = seq

/-- The gap is not the exit's, a chunk comes after it, and the chunks before it can be kept. -/
structure GuessesAt (E : List ExecProcessEvent) (s : SessionState) (chunks : List ProcessOutputChunk) (gap : Nat) : Prop
    extends FirstGap s chunks gap where
  notExit : ¬ EventIs E gap ExecProcessEvent.isExited
  later : ∃ chunk ∈ chunks, gap < chunk.seq
  fits : ∀ chunk ∈ chunks, s.ordered.lastPublishedSeq < chunk.seq → chunk.seq < gap →
    s.ordered.waiting chunk.seq = none → chunk.chunk.length ≤ maxPendingProcessEventBytes

/-- The process has exited, the client has not seen the exit, and takes an output's gap for it. -/
def GuessesWrong (E : List ExecProcessEvent) (s : SessionState) (response : ReadResponse) : Prop :=
  response.exited ∧ Unseen E s ∧ ∃ gap, GuessesAt E s response.chunks gap

/-! ## What is published stays -/

namespace SessionState

variable (s : SessionState) (response : ReadResponse) (target : Nat)

theorem events_publishRounds (rounds : Nat) (s : SessionState) : s.events <+: (s.publishRounds rounds).1.events := by
  induction rounds generalizing s with
  | zero => exact List.prefix_rfl
  | succ rounds ih =>
    unfold publishRounds
    split
    next => exact List.prefix_rfl
    next event hevent =>
      have hrest := ih { s with ordered := s.ordered.takeNext event, events := s.events ++ [event] }
      exact (List.prefix_append s.events [event]).trans hrest

theorem events_publishReady {s : SessionState} {event : ExecProcessEvent}
    (h : s.ordered.waiting (s.ordered.lastPublishedSeq + 1) = some event) :
    s.events ++ [event] <+: s.publishReady.1.events := by
  have hpos := FiniteMaps.length_erase (Option.isSome_of_eq_some h)
  unfold publishReady
  rw [← hpos]
  unfold publishRounds
  rw [show s.ordered.pending.lookup _ = _ from h]
  exact events_publishRounds _ { s with ordered := s.ordered.takeNext event, events := s.events ++ [event] }

theorem events_insertAndPublish (event : ExecProcessEvent) :
    s.events <+: (s.insertAndPublish event).1.events := by
  unfold insertAndPublish
  split
  next => exact List.prefix_rfl
  next ordered hinsert => exact events_publishRounds _ { s with ordered }

theorem events_inferExit (s : SessionState) (chunk : ProcessOutputChunk)
    (exitKnown publishedClosed : Bool) : s.events <+: (inferExit response s chunk exitKnown publishedClosed).1.events := by
  unfold inferExit
  dsimp only
  split
  next =>
    split
    next => exact List.prefix_rfl
    next exitCode hcode =>
      have hevents := events_insertAndPublish s (.exited (s.ordered.lastPublishedSeq + 1) exitCode (some response.sandboxDenied))
      split
      next s₁ message hinsert => rwa [hinsert] at hevents
      next s₁ closed hinsert => rwa [hinsert] at hevents
  next => exact List.prefix_rfl

theorem events_recoverChunks (chunks : List ProcessOutputChunk) (s : SessionState)
    (exitKnown publishedClosed : Bool) :
    s.events <+: (recoverChunks response target chunks s exitKnown publishedClosed).1.events := by
  induction chunks generalizing s exitKnown publishedClosed with
  | nil => exact List.prefix_rfl
  | cons chunk rest ih =>
    unfold recoverChunks
    split
    next => exact List.prefix_rfl
    next =>
      have hinfer := events_inferExit response s chunk exitKnown publishedClosed
      split
      next s₁ error hfail => rwa [hfail] at hinfer
      next s₁ exitKnown₁ publishedClosed₁ hok =>
        rw [hok] at hinfer
        have hinsert := events_insertAndPublish s₁ (.output chunk)
        split
        next =>
          split
          next s₂ message hfail =>
            rw [hfail] at hinsert
            exact hinfer.trans hinsert
          next s₂ closed hok' =>
            rw [hok'] at hinsert
            exact (hinfer.trans hinsert).trans (ih ..)
        next => exact hinfer.trans (ih ..)

theorem events_recoverClosed : (s.recoverClosed response target).1.events = s.events := by
  unfold recoverClosed
  split
  next => split <;> rfl
  next => rfl

theorem events_recoverMissing (exitKnown : Bool) :
    (s.recoverMissing response target exitKnown).1.events = s.events := by
  unfold recoverMissing
  dsimp only
  split
  next =>
    split
    next => rfl
    next =>
      split
      next => rfl
      next => split <;> rfl
  next => split <;> rfl

end SessionState

/-! ## Chunk by chunk -/

theorem Faithful.insertAndPublish_any {s} (h : Faithful E s) {event e} {seq : Nat}
    (hseq : event.seq = some seq) (hlt : s.ordered.lastPublishedSeq < seq) (he : eventAt E seq = some e)
    (hcore : event.core = e.core) : Faithful E (s.insertAndPublish event).1 := by
  cases hresult : s.insertAndPublish event with
  | mk s' result =>
    cases result with
    | ok b => exact h.insertAndPublish hseq hlt he hcore hresult
    | error message =>
      unfold SessionState.insertAndPublish at hresult
      split at hresult
      next => cases hresult; exact h
      next => cases hresult

variable {response : ReadResponse} {chunks : List ProcessOutputChunk} {s' : SessionState} {n : Nat}

theorem inferExit_idle {exitKnown : Bool} (h : response.exited = false ∨ exitKnown = true)
    (s : SessionState) (chunk : ProcessOutputChunk) (publishedClosed : Bool) :
    SessionState.inferExit response s chunk exitKnown publishedClosed = (s, .ok (exitKnown, publishedClosed)) := by
  unfold SessionState.inferExit
  rw [if_neg]
  simp only [Bool.and_eq_true, Bool.not_eq_true']
  rintro ⟨⟨hexited, hknown⟩, -⟩
  rcases h with h | h
  · rw [h] at hexited
    cases hexited
  · rw [h] at hknown
    cases hknown

theorem Faithful.recoverChunks_known {target : Nat} {exitKnown : Bool}
    (hknown : response.exited = false ∨ exitKnown = true)
    (hchunks : ∀ chunk ∈ chunks, eventAt E chunk.seq = some (.output chunk)) {s} (h : Faithful E s)
    (publishedClosed : Bool) :
    Faithful E (SessionState.recoverChunks response target chunks s exitKnown publishedClosed).1 := by
  induction chunks generalizing s publishedClosed with
  | nil => exact h
  | cons chunk rest ih =>
    have hrest := fun chunk' hin => hchunks chunk' (List.mem_cons_of_mem _ hin)
    unfold SessionState.recoverChunks
    split
    next => exact h
    next =>
      rw [inferExit_idle hknown]
      dsimp only
      split
      next hlt =>
        have hnext : Faithful E (s.insertAndPublish (.output chunk)).1 :=
          h.insertAndPublish_any rfl hlt (hchunks chunk List.mem_cons_self) rfl
        split
        next s₂ message hinsert => rwa [hinsert] at hnext
        next s₂ closed hinsert =>
          rw [hinsert] at hnext
          exact ih hrest hnext _
      next => exact ih hrest h _

/-! ## Where the first gap is -/

/-- With the next event in the buffer. -/
def SessionState.withNext (s : SessionState) (event : ExecProcessEvent) (bytes : Nat) : SessionState :=
  { s with ordered := { s.ordered with
    pending := s.ordered.pending.insert (s.ordered.lastPublishedSeq + 1) event, pendingBytes := bytes } }

theorem SessionState.waiting_withNext (s : SessionState) (event : ExecProcessEvent) (bytes : Nat) :
    (s.withNext event bytes).ordered.waiting (s.ordered.lastPublishedSeq + 1) = some event :=
  AList.lookup_insert _

/-- The next event goes into the buffer, and out of it, unless it is too long by itself. -/
theorem insertAndPublish_next {s : SessionState} (event : ExecProcessEvent)
    (hseq : event.seq = some (s.ordered.lastPublishedSeq + 1)) (hsettled : s.Settled) :
    (maxPendingProcessEventBytes < pendingProcessEventBytes event ∧ ∃ message, s.insertAndPublish event = (s, .error message)) ∨
      (pendingProcessEventBytes event ≤ maxPendingProcessEventBytes ∧ ∃ bytes b,
        s.insertAndPublish event = ((s.withNext event bytes).publishReady.1, .ok b)) := by
  have hnot : s.ordered.lastPublishedSeq + 1 ∉ s.ordered.pending := AList.lookup_eq_none.1 hsettled
  unfold SessionState.insertAndPublish OrderedSessionEvents.insertPending
  rw [hseq]
  dsimp only
  rw [if_neg hnot]
  simp only [decide_true, Bool.not_true, Bool.false_and, Bool.false_eq_true, if_false]
  by_cases hover : maxPendingProcessEventBytes < pendingProcessEventBytes event
  · rw [if_pos hover]
    exact .inl ⟨hover, _, rfl⟩
  · rw [if_neg hover]
    exact .inr ⟨Nat.not_lt.1 hover, _, _, rfl⟩

section Gap

variable {s : SessionState} {chunk : ProcessOutputChunk} {rest : List ProcessOutputChunk} {gap : Nat}

/-- Where all chunks come later, the gap is the next number. -/
theorem FirstGap.eq_next (h : FirstGap s chunks gap) (hsettled : s.Settled)
    (hlater : ∀ chunk ∈ chunks, s.ordered.lastPublishedSeq + 1 < chunk.seq) : gap = s.ordered.lastPublishedSeq + 1 := by
  by_contra hne
  have hlt := h.unpublished
  rcases h.first (s.ordered.lastPublishedSeq + 1) (Nat.lt_succ_self _) (by omega) with hwaiting | ⟨chunk, hin, hseq⟩
  · rw [hsettled] at hwaiting
    cases hwaiting
  · have := hlater chunk hin
    omega

theorem guessesAt_here (hsettled : s.Settled) (hsorted : (chunk :: rest).Pairwise (·.seq < ·.seq))
    (hlt : s.ordered.lastPublishedSeq + 1 < chunk.seq) :
    (∃ gap, GuessesAt E s (chunk :: rest) gap) ↔ ¬ EventIs E (s.ordered.lastPublishedSeq + 1) ExecProcessEvent.isExited := by
  have hlater : ∀ chunk' ∈ chunk :: rest, s.ordered.lastPublishedSeq + 1 < chunk'.seq := by
    intro chunk' hin
    rcases List.mem_cons.1 hin with rfl | hin
    · exact hlt
    · exact Nat.lt_trans hlt ((List.pairwise_cons.1 hsorted).1 chunk' hin)
  constructor
  · rintro ⟨gap, h⟩
    rw [← h.eq_next hsettled hlater]
    exact h.notExit
  · intro hnot
    refine ⟨_, ⟨⟨Nat.lt_succ_self _, hsettled, fun chunk' hin => Nat.ne_of_gt (hlater chunk' hin), ?_⟩, hnot, ?_, ?_⟩⟩
    · intro seq hseq hseq'
      omega
    · exact ⟨chunk, List.mem_cons_self, hlt⟩
    · intro chunk' hin _ hbefore
      omega

theorem guessesAt_skip (hle : chunk.seq ≤ s.ordered.lastPublishedSeq) :
    GuessesAt E s (chunk :: rest) gap ↔ GuessesAt E s rest gap := by
  constructor
  · intro h
    have hgap := h.unpublished
    refine ⟨⟨hgap, h.notWaiting, fun chunk' hin => h.notRead chunk' (List.mem_cons_of_mem _ hin), ?_⟩, h.notExit, ?_, ?_⟩
    · intro seq hlt hlt'
      rcases h.first seq hlt hlt' with hwaiting | ⟨chunk', hin, hseq⟩
      · exact .inl hwaiting
      · rcases List.mem_cons.1 hin with rfl | hin
        · omega
        · exact .inr ⟨chunk', hin, hseq⟩
    · obtain ⟨chunk', hin, hlt⟩ := h.later
      rcases List.mem_cons.1 hin with rfl | hin
      · omega
      · exact ⟨chunk', hin, hlt⟩
    · exact fun chunk' hin => h.fits chunk' (List.mem_cons_of_mem _ hin)
  · intro h
    have hgap := h.unpublished
    refine ⟨⟨hgap, h.notWaiting, ?_, ?_⟩, h.notExit, ?_, ?_⟩
    · intro chunk' hin
      rcases List.mem_cons.1 hin with rfl | hin
      · omega
      · exact h.notRead chunk' hin
    · intro seq hlt hlt'
      exact (h.first seq hlt hlt').imp_right fun ⟨chunk', hin, hseq⟩ => ⟨chunk', List.mem_cons_of_mem _ hin, hseq⟩
    · obtain ⟨chunk', hin, hlt⟩ := h.later
      exact ⟨chunk', List.mem_cons_of_mem _ hin, hlt⟩
    · intro chunk' hin hlt
      rcases List.mem_cons.1 hin with rfl | hin
      · omega
      · exact h.fits chunk' hin hlt

/-- The next chunk goes in and what can be published is; the first gap is where it was. -/
theorem guessesAt_next {bytes : Nat} (hseq : chunk.seq = s.ordered.lastPublishedSeq + 1)
    (hsorted : (chunk :: rest).Pairwise (·.seq < ·.seq)) (hfits : chunk.chunk.length ≤ maxPendingProcessEventBytes)
    (hadv : Advances (s.withNext (.output chunk) bytes) s')
    (hnext : s.ordered.lastPublishedSeq < s'.ordered.lastPublishedSeq) :
    GuessesAt E s (chunk :: rest) gap ↔ GuessesAt E s' rest gap := by
  obtain ⟨hrest, -⟩ := List.pairwise_cons.1 hsorted
  -- what is waiting with the chunk in the buffer, beside the chunk itself
  have hbeside : ∀ seq, seq ≠ chunk.seq → (s.withNext (.output chunk) bytes).ordered.waiting seq = s.ordered.waiting seq :=
    fun seq hne => AList.lookup_insert_ne (hseq ▸ hne)
  have hpublished : ∀ seq, s.ordered.lastPublishedSeq < seq → seq ≤ s'.ordered.lastPublishedSeq → seq ≠ chunk.seq →
      (s.ordered.waiting seq).isSome := by
    intro seq hlt hle hne
    rw [← hbeside seq hne]
    exact hadv.taken seq hlt hle
  have hwaiting : ∀ seq, s'.ordered.lastPublishedSeq < seq → s'.ordered.waiting seq = s.ordered.waiting seq := by
    intro seq hlt
    rw [← hbeside seq (by omega)]
    exact hadv.rest seq hlt
  constructor
  · intro h
    have hne : gap ≠ chunk.seq := fun heq => h.notRead chunk List.mem_cons_self heq.symm
    have hlt : s'.ordered.lastPublishedSeq < gap := by
      by_contra hle
      have hsome := hpublished gap h.unpublished (Nat.not_lt.1 hle) hne
      rw [h.notWaiting] at hsome
      cases hsome
    refine ⟨⟨hlt, ?_, fun chunk' hin => h.notRead chunk' (List.mem_cons_of_mem _ hin), ?_⟩, h.notExit, ?_, ?_⟩
    · rw [hwaiting gap hlt]
      exact h.notWaiting
    · intro seq hseq' hgap
      rw [hwaiting seq hseq']
      rcases h.first seq (by omega) hgap with hsome | ⟨chunk', hin, heq⟩
      · exact .inl hsome
      · rcases List.mem_cons.1 hin with rfl | hin
        · omega
        · exact .inr ⟨chunk', hin, heq⟩
    · obtain ⟨chunk', hin, hgap⟩ := h.later
      rcases List.mem_cons.1 hin with rfl | hin
      · omega
      · exact ⟨chunk', hin, hgap⟩
    · intro chunk' hin hlt' hgap hnone
      rw [hwaiting _ hlt'] at hnone
      exact h.fits chunk' (List.mem_cons_of_mem _ hin) (by omega) hgap hnone
  · intro h
    have hgap := h.unpublished
    refine ⟨⟨by omega, ?_, ?_, ?_⟩, h.notExit, ?_, ?_⟩
    · rw [← hwaiting gap hgap]
      exact h.notWaiting
    · intro chunk' hin
      rcases List.mem_cons.1 hin with rfl | hin
      · omega
      · exact h.notRead chunk' hin
    · intro seq hlt hlt'
      by_cases heq : seq = chunk.seq
      · exact .inr ⟨chunk, List.mem_cons_self, heq.symm⟩
      rcases Nat.lt_or_ge s'.ordered.lastPublishedSeq seq with hlater | hle
      · rw [← hwaiting seq hlater]
        exact (h.first seq hlater hlt').imp_right fun ⟨chunk', hin, hseq'⟩ => ⟨chunk', List.mem_cons_of_mem _ hin, hseq'⟩
      · exact .inl (hpublished seq hlt hle heq)
    · obtain ⟨chunk', hin, hlt⟩ := h.later
      exact ⟨chunk', List.mem_cons_of_mem _ hin, hlt⟩
    · intro chunk' hin hlt hlt' hnone
      rcases List.mem_cons.1 hin with rfl | hin
      · exact hfits
      have hafter := hrest chunk' hin
      rcases Nat.lt_or_ge s'.ordered.lastPublishedSeq chunk'.seq with hlater | hle
      · exact h.fits chunk' hin hlater hlt' ((hwaiting _ hlater).trans hnone)
      · have hsome := hpublished chunk'.seq hlt hle (by omega)
        rw [hnone] at hsome
        cases hsome

end Gap

/-! ## The loop over the chunks -/

theorem not_begins_of_exit {s} (h : Faithful E s) {exitCode : Int} {flag}
    (hnot : ¬ EventIs E (s.ordered.lastPublishedSeq + 1) ExecProcessEvent.isExited) {events}
    (hevents : s.events ++ [.exited (s.ordered.lastPublishedSeq + 1) exitCode flag] <+: events) :
    ¬ events.map ExecProcessEvent.core <+: E.map ExecProcessEvent.core := by
  intro hbegins
  have hprefix := (hevents.map ExecProcessEvent.core).trans hbegins
  have hlen : (s.events.map ExecProcessEvent.core).length = s.ordered.lastPublishedSeq := by
    rw [h.published, List.length_map, List.length_take, Nat.min_eq_left h.bounded]
  have hat : (E.map ExecProcessEvent.core)[s.ordered.lastPublishedSeq]? =
      some (ExecProcessEvent.exited (s.ordered.lastPublishedSeq + 1) exitCode flag).core := by
    obtain ⟨rest, hrest⟩ := hprefix
    rw [← hrest, List.map_append, List.append_assoc, List.getElem?_append_right (by omega), hlen, Nat.sub_self]
    rfl
  rw [List.getElem?_map, Option.map_eq_some_iff] at hat
  obtain ⟨e, he, hcore⟩ := hat
  exact hnot ⟨e, he, ExecProcessEvent.isExited_of_core_eq hcore⟩

/-- The exit goes before the chunk, and the loop goes on with the exit known. -/
theorem recoverChunks_infers {s : SessionState} {chunk : ProcessOutputChunk}
    {rest : List ProcessOutputChunk} {exitCode : Int} (hexited : response.exited) (hcode : response.exitCode = some exitCode)
    (hsettled : s.Settled) (hle : chunk.seq ≤ n) (hlt : s.ordered.lastPublishedSeq + 1 < chunk.seq) (publishedClosed : Bool) :
    ∃ s₁ b publishedClosed', s.insertAndPublish
        (.exited (s.ordered.lastPublishedSeq + 1) exitCode (some response.sandboxDenied)) = (s₁, .ok b) ∧
      s.events ++ [.exited (s.ordered.lastPublishedSeq + 1) exitCode (some response.sandboxDenied)] <+: s₁.events ∧
      SessionState.recoverChunks response n (chunk :: rest) s false publishedClosed =
        SessionState.recoverChunks response n (chunk :: rest) s₁ true publishedClosed' := by
  have hinsert : ∃ s₁ b, s.insertAndPublish
        (.exited (s.ordered.lastPublishedSeq + 1) exitCode (some response.sandboxDenied)) = (s₁, .ok b) ∧
      s.events ++ [.exited (s.ordered.lastPublishedSeq + 1) exitCode (some response.sandboxDenied)] <+: s₁.events := by
    rcases insertAndPublish_next (.exited (s.ordered.lastPublishedSeq + 1) exitCode (some response.sandboxDenied))
      rfl hsettled with ⟨hover, -⟩ | ⟨-, bytes, b, hok⟩
    · exact absurd hover (Nat.not_lt_zero _)
    · exact ⟨_, b, hok, SessionState.events_publishReady (SessionState.waiting_withNext ..)⟩
  obtain ⟨s₁, b, heq, hevents⟩ := hinsert
  refine ⟨s₁, b, publishedClosed || b, heq, hevents, ?_⟩
  have hinfer : SessionState.inferExit response s chunk false publishedClosed = (s₁, .ok (true, publishedClosed || b)) := by
    unfold SessionState.inferExit
    rw [if_pos (by simp [hexited, hlt]), hcode]
    dsimp only
    rw [heq]
  conv_lhs => unfold SessionState.recoverChunks
  conv_rhs => unfold SessionState.recoverChunks
  rw [if_neg (Nat.not_lt.2 hle), if_neg (Nat.not_lt.2 hle), hinfer, inferExit_idle (.inr rfl)]

/-- **The chunks leave a faithful client, or have published the exit in a wrong place.** -/
theorem recoverChunks_faithful_or_wrong (hE : ServerSequence E)
    (hresponse : Honest E n response) (hexited : response.exited)
    (hchunks : ∀ chunk ∈ chunks, eventAt E chunk.seq = some (.output chunk))
    (hsorted : chunks.Pairwise (·.seq < ·.seq)) (hle : ∀ chunk ∈ chunks, chunk.seq ≤ n) {s : SessionState}
    (h : Faithful E s) (hsettled : s.Settled) (hunseen : Unseen E s) (publishedClosed : Bool) :
    ((¬ ∃ gap, GuessesAt E s chunks gap) →
        Faithful E (SessionState.recoverChunks response n chunks s false publishedClosed).1) ∧
      ((∃ gap, GuessesAt E s chunks gap) →
        ¬ (SessionState.recoverChunks response n chunks s false publishedClosed).1.events.map ExecProcessEvent.core <+:
          E.map ExecProcessEvent.core) := by
  induction chunks generalizing s publishedClosed with
  | nil =>
    refine ⟨fun _ => h, ?_⟩
    rintro ⟨gap, hgap⟩
    obtain ⟨chunk, hin, -⟩ := hgap.later
    cases hin
  | cons chunk rest ih =>
    have hchunk := hchunks chunk List.mem_cons_self
    have hbound := hle chunk List.mem_cons_self
    have ih := fun {s₁} => ih (fun chunk' hin => hchunks chunk' (List.mem_cons_of_mem _ hin))
      (List.pairwise_cons.1 hsorted).2 (fun chunk' hin => hle chunk' (List.mem_cons_of_mem _ hin)) (s := s₁)
    by_cases hlt : s.ordered.lastPublishedSeq + 1 < chunk.seq
    · -- the exit is published before this chunk
      obtain ⟨exit, -, hexit⟩ := hresponse.exited.1 hexited
      obtain ⟨exitCode, flag, hevent⟩ := hE.eventAt_exit hexit
      have hcode := hresponse.exitCode _ _ _ hexited hevent
      obtain ⟨s₁, b, publishedClosed', hinsert, hevents, heq⟩ :=
        recoverChunks_infers hexited hcode hsettled hbound hlt publishedClosed
      rw [guessesAt_here hsettled hsorted hlt, heq, not_not]
      constructor
      · intro hright
        cases hE.exit.unique hexit hright
        have hcore : (ExecProcessEvent.exited (s.ordered.lastPublishedSeq + 1) exitCode (some response.sandboxDenied)).core =
          (ExecProcessEvent.exited (s.ordered.lastPublishedSeq + 1) exitCode flag).core := rfl
        have hs₁ : Faithful E s₁ := h.insertAndPublish rfl (Nat.lt_succ_self _) hevent hcore hinsert
        exact hs₁.recoverChunks_known (.inr rfl) hchunks _
      · exact fun hwrong => not_begins_of_exit h hwrong (hevents.trans (SessionState.events_recoverChunks ..))
    · have hidle : SessionState.inferExit response s chunk false publishedClosed = (s, .ok (false, publishedClosed)) := by
        unfold SessionState.inferExit
        rw [if_neg (by simp [hlt])]
      unfold SessionState.recoverChunks
      rw [if_neg (Nat.not_lt.2 hbound), hidle]
      dsimp only
      by_cases hnew : s.ordered.lastPublishedSeq < chunk.seq
      · rw [if_pos hnew]
        have hseq : chunk.seq = s.ordered.lastPublishedSeq + 1 := by omega
        rcases insertAndPublish_next (.output chunk) (congrArg some hseq) hsettled with
          ⟨hover, message, hresult⟩ | ⟨hfits, bytes, b, hresult⟩
        · -- the chunk is too long, and the loop ends
          rw [hresult]
          refine ⟨fun _ => h, ?_⟩
          rintro ⟨gap, hgap⟩
          have hne := hgap.notRead chunk List.mem_cons_self
          have hunpublished := hgap.unpublished
          have hshort := hgap.fits chunk List.mem_cons_self hnew (by omega) (by rw [hseq]; exact hsettled)
          exact absurd hover (Nat.not_lt.2 hshort)
        · have hadv := SessionState.advances_publishReady (s.withNext (.output chunk) bytes)
          have hcovers : s.ordered.lastPublishedSeq + 1 ≤
              (s.withNext (.output chunk) bytes).publishReady.1.ordered.lastPublishedSeq := by
            refine SessionState.publishReady_covers fun seq hlow hhigh => ?_
            rw [Nat.le_antisymm hhigh hlow]
            exact Option.isSome_of_eq_some (SessionState.waiting_withNext ..)
          rw [hresult]
          simp only [guessesAt_next hseq hsorted hfits hadv hcovers]
          exact ih (h.insertAndPublish rfl hnew hchunk rfl hresult) (SessionState.settled_publishReady _)
            (hunseen.insertAndPublish rfl (not_exited_of_output hchunk) hresult) _
      · rw [if_neg hnew]
        simp only [guessesAt_skip (Nat.not_lt.1 hnew)]
        exact ih h hsettled hunseen _

/-! ## One recovery -/

/-- The chunks of a read come in order, and none after what the read counts. -/
structure Retained (n : Nat) (response : ReadResponse) : Prop where
  sorted : response.chunks.Pairwise (·.seq < ·.seq)
  bounded : ∀ chunk ∈ response.chunks, chunk.seq ≤ n

/-- What is published after the chunks is published by a call that succeeds. -/
theorem events_recoverEvents {s : SessionState} (hfailure : response.failure = none)
    (hnext : response.nextSeq = n + 1)
    (hlive : (s.ordered.failure.isSome || s.ordered.closedPublished || decide (n ≤ s.ordered.lastPublishedSeq)) = false)
    {ordered : OrderedSessionEvents} {exitPending : Bool}
    (hnote : s.ordered.notePendingExit n response.sandboxDenied = (ordered, exitPending))
    (hconflict : SessionState.closeConflicts ordered response n = false) {session : SessionState}
    {result : Except NoiseRelay.ExecServerError Bool} (hresult : s.recoverEvents response = (session, result)) :
    (SessionState.recoverChunks response n response.chunks { s with ordered } (ordered.exitPublished || exitPending)
        false).1.events <+: session.events ∧
      ∀ error, result = .error error → session.events = (SessionState.recoverChunks response n response.chunks
        { s with ordered } (ordered.exitPublished || exitPending) false).1.events := by
  unfold SessionState.recoverEvents at hresult
  rw [hfailure] at hresult
  dsimp only at hresult
  rw [hnext, Nat.add_sub_cancel, hlive, hnote] at hresult
  simp only [Bool.false_eq_true, if_false, hconflict] at hresult
  split at hresult
  next s₁ error hchunks =>
    cases hresult
    rw [hchunks]
    exact ⟨List.prefix_rfl, fun _ _ => rfl⟩
  next s₁ exitKnown publishedClosed hchunks =>
    rw [hchunks]
    have hclosed := SessionState.events_recoverClosed s₁ response n
    split at hresult
    next s₂ error hfail =>
      cases hresult
      rw [hfail] at hclosed
      exact ⟨hclosed ▸ List.prefix_rfl, fun _ _ => hclosed⟩
    next s₂ hok =>
      rw [hok] at hclosed
      have hmissing := SessionState.events_recoverMissing s₂ response n exitKnown
      split at hresult
      next s₃ error hfail =>
        cases hresult
        rw [hfail] at hmissing
        exact ⟨(hmissing.trans hclosed) ▸ List.prefix_rfl, fun _ _ => hmissing.trans hclosed⟩
      next s₃ hok' =>
        cases hresult
        rw [hok'] at hmissing
        refine ⟨?_, nofun⟩
        rw [← hclosed, ← hmissing]
        exact SessionState.events_publishRounds ..

theorem Faithful.notedExit {s} (hE : ServerSequence E)
    (hresponse : Honest E n response) (h : Faithful E s) {ordered} {exitPending : Bool}
    (hnote : s.ordered.notePendingExit n response.sandboxDenied = (ordered, exitPending)) :
    Faithful E { s with ordered } ∧
      (response.exited → (ordered.exitPublished || exitPending) = false → Unseen E s) := by
  have hrecovering := h.recovering hE hresponse hnote
  rcases notePendingExit_spec s.ordered n response.sandboxDenied with
    ⟨key, seq, exitCode, flag, flag', hwaiting, heq⟩ | ⟨heq, -⟩
  · rw [hnote] at heq
    cases heq
    obtain ⟨hlt, e, he, hcore⟩ := h.waiting key _ hwaiting
    have hcore' : (ExecProcessEvent.exited seq exitCode flag').core = e.core := hcore
    refine ⟨h.insert hlt he hcore', fun _ hknown => ?_⟩
    rw [Bool.or_true] at hknown
    cases hknown
  · rw [hnote] at heq
    cases heq
    refine ⟨h, fun hexited hknown => ?_⟩
    rcases hrecovering with ⟨-, hunseen⟩ | ⟨-, hknown', -⟩
    · exact hunseen hexited hknown
    · rw [hknown] at hknown'
      cases hknown'

theorem Unseen.notePendingExit {s} (h : Faithful E s) (hunseen : Unseen E s) (target : Nat)
    (sandboxDenied : Bool) : s.ordered.notePendingExit target sandboxDenied = (s.ordered, false) := by
  rcases notePendingExit_spec s.ordered target sandboxDenied with ⟨key, seq, exitCode, flag, flag', hwaiting, -⟩ | ⟨heq, -⟩
  · obtain ⟨-, e, he, hcore⟩ := h.waiting key _ hwaiting
    have hexited : e.isExited := (ExecProcessEvent.isExited_of_core_eq hcore).symm
    have hnone := (hunseen key ⟨e, he, hexited⟩).2
    rw [hwaiting] at hnone
    cases hnone
  · exact heq

theorem Unseen.exitPublished {s} (h : Faithful E s) (hunseen : Unseen E s) : s.ordered.exitPublished = false := by
  rw [h.exit]
  by_contra hpublished
  obtain ⟨seq, hle, hexit⟩ := any_take_iff.1 (Bool.not_eq_false _ |>.mp hpublished)
  have hlt := (hunseen seq hexit).1
  omega

theorem Faithful.closeConflicts {s} (hE : ServerSequence E)
    (hresponse : Honest E n response) (h : Faithful E s) : SessionState.closeConflicts s.ordered response n = false := by
  cases hclosed : response.closed with
  | false =>
    unfold SessionState.closeConflicts
    rw [hclosed, Bool.false_and]
  | true =>
    have hn := hresponse.closed hclosed
    subst hn
    have hevent := hE.eventAt_closed
    have hnone : response.chunks.any (·.seq == E.length) = false := by
      refine List.any_eq_false.2 fun chunk hin hseq => ?_
      have hchunk := hresponse.chunks chunk hin
      rw [eq_of_beq hseq, hevent] at hchunk
      cases hchunk
    unfold SessionState.closeConflicts
    rw [hclosed, hnone, Bool.or_false, Bool.true_and]
    split
    next event hwaiting =>
      obtain ⟨-, e, he, hcore⟩ := h.waiting _ _ hwaiting
      rw [hevent] at he
      cases he
      rw [ExecProcessEvent.isClosed_of_core_eq hcore]
      rfl
    next => rfl

/-- Before a wrong guess the call goes on to the chunks. -/
theorem GuessesWrong.live {s} (hE : ServerSequence E)
    (hresponse : Honest E n response) (hretained : Retained n response) (h : Faithful E s) (hwrong : GuessesWrong E s response) :
    (s.ordered.failure.isSome || s.ordered.closedPublished || decide (n ≤ s.ordered.lastPublishedSeq)) = false := by
  obtain ⟨-, -, gap, hgap⟩ := hwrong
  obtain ⟨chunk, hin, hlater⟩ := hgap.later
  have hunpublished := hgap.unpublished
  have hchunk := hretained.bounded chunk hin
  have hn := hresponse.bounded
  have hclosed : s.ordered.closedPublished = false := by
    rw [h.closed]
    by_contra hpublished
    obtain ⟨seq, hle, hseq⟩ := any_take_iff.1 (Bool.not_eq_false _ |>.mp hpublished)
    have hlast := (hE.closed seq).1 hseq
    omega
  rw [h.noFailure, hclosed, decide_eq_false (by omega)]
  rfl

/-- **A recovery that fails has published only events of the server exactly when it does not
take an output's gap for the exit.** -/
theorem recoverEvents_published_iff {s : SessionState} (hE : ServerSequence E)
    (hresponse : Honest E n response) (hretained : Retained n response) (h : Faithful E s) (hsettled : s.Settled) :
    (∀ session error, s.recoverEvents response = (session, .error error) →
        session.events.map ExecProcessEvent.core <+: E.map ExecProcessEvent.core) ↔ ¬ GuessesWrong E s response := by
  constructor
  · intro hpublished hwrong
    have hlive := hwrong.live hE hresponse hretained h
    obtain ⟨hexited, hunseen, hgap⟩ := hwrong
    have hnote := hunseen.notePendingExit h n response.sandboxDenied
    cases hresult : s.recoverEvents response with
    | mk session result =>
      have hevents := (events_recoverEvents hresponse.noFailure hresponse.nextSeq hlive hnote
        (h.closeConflicts hE hresponse) hresult).1
      rw [hunseen.exitPublished h, Bool.or_false] at hevents
      have hnot := (recoverChunks_faithful_or_wrong hE hresponse hexited hresponse.chunks hretained.sorted hretained.bounded h
        hsettled hunseen false).2 hgap
      refine hnot ((hevents.map ExecProcessEvent.core).trans ?_)
      cases result with
      | ok b => exact (recoverEvents_spec hE hresponse h hresult).1.begins
      | error error => exact hpublished session error hresult
  · intro hright session error hresult
    cases hlive : (s.ordered.failure.isSome || s.ordered.closedPublished || decide (n ≤ s.ordered.lastPublishedSeq)) with
    | true =>
      unfold SessionState.recoverEvents at hresult
      rw [hresponse.noFailure] at hresult
      dsimp only at hresult
      rw [hresponse.nextSeq, Nat.add_sub_cancel, hlive] at hresult
      cases hresult
    | false =>
      obtain ⟨ordered, exitPending, hnote⟩ : ∃ ordered exitPending,
        s.ordered.notePendingExit n response.sandboxDenied = (ordered, exitPending) := ⟨_, _, rfl⟩
      obtain ⟨hnoted, hunknown⟩ := h.notedExit hE hresponse hnote
      have hevents := (events_recoverEvents hresponse.noFailure hresponse.nextSeq hlive hnote
        (hnoted.closeConflicts hE hresponse) hresult).2 error rfl
      rw [hevents]
      refine Faithful.begins ?_
      by_cases hknown : response.exited = false ∨ (ordered.exitPublished || exitPending) = true
      · exact hnoted.recoverChunks_known hknown hresponse.chunks _
      · simp only [not_or, Bool.not_eq_false, Bool.not_eq_true] at hknown
        obtain ⟨hexited, hknown⟩ := hknown
        have hunseen := hunknown hexited hknown
        rw [hunseen.notePendingExit h n response.sandboxDenied] at hnote
        cases hnote
        rw [hknown]
        exact (recoverChunks_faithful_or_wrong hE hresponse hexited hresponse.chunks hretained.sorted hretained.bounded h
          hsettled hunseen false).1 fun hgap => hright ⟨hexited, hunseen, hgap⟩

/-! ## Every run -/

theorem ServerSequence.pairwise_outputs (hE : ServerSequence E) (n : Nat) :
    ((E.take n).filterMap ExecProcessEvent.outputChunk).Pairwise (·.seq < ·.seq) := by
  rw [List.pairwise_filterMap]
  refine List.Pairwise.sublist (List.take_sublist ..) (List.pairwise_iff_getElem.2 fun i j hi hj hlt => ?_)
  intro chunk hchunk chunk' hchunk'
  have hseq : ∀ k (hk : k < E.length) chunk, E[k].outputChunk = some chunk → chunk.seq = k + 1 := by
    intro k hk chunk hout
    have hnumber := hE.numbered (k + 1) E[k] (List.getElem?_eq_getElem hk)
    cases hevent : E[k] with
    | output chunk' =>
      rw [hevent] at hout hnumber
      cases hout
      exact Option.some.inj hnumber
    | exited => rw [hevent] at hout; cases hout
    | closed => rw [hevent] at hout; cases hout
    | failed => rw [hevent] at hout; cases hout
  have hleft := hseq i hi chunk hchunk
  have hright := hseq j hj chunk' hchunk'
  omega

theorem retained_read (hE : ServerSequence E) (n evicted : Nat) (sandboxDenied : Bool) (afterSeq : Nat) :
    Retained (E.take n).length ((serverAt E n evicted sandboxDenied).read (some afterSeq) none) := by
  have hchunks : ((serverAt E n evicted sandboxDenied).read (some afterSeq) none).chunks =
      (((E.take n).filterMap ExecProcessEvent.outputChunk).drop evicted).filter (afterSeq < ·.seq) := by
    show (RunningProcess.takeChunks none _ [] 0 _).1 = _
    rw [takeChunks_all, List.nil_append]
    rfl
  refine ⟨?_, fun chunk hin => ?_⟩
  · rw [hchunks]
    exact ((hE.pairwise_outputs n).sublist (List.drop_sublist ..)).filter _
  · rw [hchunks] at hin
    obtain ⟨event, hevent, hout⟩ := List.mem_filterMap.1 (List.mem_of_mem_drop (List.mem_of_mem_filter hin))
    obtain ⟨seq, hle, hseq⟩ := mem_take_iff.1 hevent
    have hnumber := hE.numbered seq event hseq
    have hlast := (le_length_of_eventAt hseq).2
    cases event with
    | output chunk' =>
      cases hout
      cases hnumber
      rw [List.length_take]
      exact Nat.le_min.2 ⟨hle, hlast⟩
    | exited => cases hout
    | closed => cases hout
    | failed => cases hout

theorem SessionState.settled_handleNotification {s : SessionState} {event : ExecProcessEvent} {b : Bool} (h : s.Settled)
    (hok : s.handleNotification event = (s', .ok b)) : s'.Settled := by
  obtain ⟨s₁, hpublish, rfl⟩ := publishOrderedEvent_of_ok hok
  unfold SessionState.publishOrderedEvent at hpublish
  split at hpublish
  next => cases hpublish; exact h
  next =>
    split at hpublish
    next => cases hpublish; exact h
    next =>
      obtain ⟨ordered, -, rfl⟩ := insertAndPublish_ok hpublish
      exact SessionState.settled_publishReady _

theorem SessionState.settled_recoverEvents {s : SessionState} {b : Bool} (h : s.Settled)
    (hok : s.recoverEvents response = (s', .ok b)) : s'.Settled := by
  unfold SessionState.recoverEvents at hok
  split at hok
  next => cases hok
  next =>
    dsimp only at hok
    split at hok
    next => cases hok; exact h
    next =>
      split at hok
      next => cases hok
      next =>
        split at hok
        next => cases hok
        next =>
          split at hok
          next => cases hok
          next =>
            split at hok
            next => cases hok
            next s₃ hmissing =>
              cases hok
              exact SessionState.settled_publishReady s₃

namespace Follower

/-- The client between two calls, and the answers it has. -/
structure Reading (E : List ExecProcessEvent) (s : Follower) : Prop extends s.Following E where
  settled : s.errored = false → s.session.Settled
  retained : ∀ response ∈ s.reads, ∃ n, Honest E n response ∧ Retained n response

theorem reads_step (s : Follower) (a : FollowerAction) (hin : response ∈ (s.step E a).reads) :
    response ∈ s.reads ∨ ∃ n evicted sandboxDenied afterSeq,
      response = (serverAt E n evicted sandboxDenied).read (some afterSeq) none := by
  unfold Follower.step at hin
  cases a with
  | notify i =>
    dsimp only at hin
    split at hin
    next => exact .inl hin
    next => split at hin <;> exact .inl hin
  | read n evicted sandboxDenied =>
    rcases List.mem_append.1 hin with hold | hnew
    · exact .inl hold
    · exact .inr ⟨n, evicted, sandboxDenied, _, List.mem_singleton.1 hnew⟩
  | recover i =>
    dsimp only at hin
    split at hin
    next => exact .inl hin
    next => split at hin <;> exact .inl hin

theorem settled_step {s : Follower} (h : s.errored = false → s.session.Settled) (a : FollowerAction)
    (herrored : (s.step E a).errored = false) : (s.step E a).session.Settled := by
  unfold Follower.step at herrored ⊢
  cases a with
  | notify i =>
    dsimp only at herrored ⊢
    split at herrored
    next => exact h herrored
    next event hevent =>
      split at herrored
      next session b hok => exact SessionState.settled_handleNotification (h herrored) hok
      next => cases herrored
  | read n evicted sandboxDenied => exact h herrored
  | recover i =>
    dsimp only at herrored ⊢
    split at herrored
    next => exact h herrored
    next response hresponse =>
      split at herrored
      next session b hok => exact SessionState.settled_recoverEvents (h herrored) hok
      next => cases herrored

theorem Reading.step {s : Follower} (hE : ServerSequence E) (h : s.Reading E) (a : FollowerAction) :
    (s.step E a).Reading E := by
  refine ⟨h.toFollowing.step hE a, settled_step h.settled a, fun response hin => ?_⟩
  rcases reads_step s a hin with hold | ⟨n, evicted, sandboxDenied, afterSeq, rfl⟩
  · exact h.retained response hold
  · exact ⟨_, honest_read hE n evicted sandboxDenied _, retained_read hE n evicted sandboxDenied _⟩

end Follower

/-- **In every run, a recovery that fails has published only events of the server exactly when it
does not take an output's gap for the exit.** -/
theorem failed_recovery_published_iff (hE : ServerSequence E) (actions : List FollowerAction) :
    let s := run (Follower.step E) {} actions
    s.errored = false → ∀ response ∈ s.reads,
      ((∀ session error, s.session.recoverEvents response = (session, .error error) →
          session.events.map ExecProcessEvent.core <+: E.map ExecProcessEvent.core) ↔
        ¬ GuessesWrong E s.session response) := by
  intro s herrored response hin
  have hstart : ({} : Follower).Reading E :=
    { faithful := fun _ => ⟨rfl, Nat.zero_le _, rfl, rfl, rfl, fun _ _ hwaiting => nomatch hwaiting⟩
      honest := fun _ hin => absurd hin List.not_mem_nil
      settled := fun _ => rfl
      retained := fun _ hin => absurd hin List.not_mem_nil }
  have h : s.Reading E := run_invariant (fun _ a h => h.step hE a) hstart actions
  obtain ⟨n, hhonest, hretained⟩ := h.retained response hin
  exact recoverEvents_published_iff hE hhonest hretained (h.faithful herrored) (h.settled herrored)

/-! ## An output that is gone -/

/-- Two outputs, the exit, the close. -/
def twoOutputs : List ExecProcessEvent :=
  [.output { seq := 1, stream := .stdout, chunk := [104] }, .output { seq := 2, stream := .stdout, chunk := [105] },
    .exited 3 0 (some false), .closed 4]

theorem twoOutputs_serverSequence : ServerSequence twoOutputs := by
  have hcases : ∀ seq event, eventAt twoOutputs seq = some event →
      (seq = 1 ∧ event = .output { seq := 1, stream := .stdout, chunk := [104] }) ∨
        (seq = 2 ∧ event = .output { seq := 2, stream := .stdout, chunk := [105] }) ∨
        (seq = 3 ∧ event = .exited 3 0 (some false)) ∨ (seq = 4 ∧ event = .closed 4) := by
    intro seq event h
    match seq, h with
    | 1, h => cases h; exact .inl ⟨rfl, rfl⟩
    | 2, h => cases h; exact .inr (.inl ⟨rfl, rfl⟩)
    | 3, h => cases h; exact .inr (.inr (.inl ⟨rfl, rfl⟩))
    | 4, h => cases h; exact .inr (.inr (.inr ⟨rfl, rfl⟩))
  refine ⟨fun seq event h => ?_, ⟨3, ⟨_, rfl, rfl⟩, fun seq h => ?_⟩, fun seq => ⟨fun h => ?_, fun h => ?_⟩⟩
  · obtain ⟨rfl, rfl⟩ | ⟨rfl, rfl⟩ | ⟨rfl, rfl⟩ | ⟨rfl, rfl⟩ := hcases seq event h <;> rfl
  · obtain ⟨event, hevent, hexited⟩ := h
    obtain ⟨rfl, rfl⟩ | ⟨rfl, rfl⟩ | ⟨rfl, rfl⟩ | ⟨rfl, rfl⟩ := hcases seq event hevent
    · cases hexited
    · cases hexited
    · rfl
    · cases hexited
  · obtain ⟨event, hevent, hclosed⟩ := h
    obtain ⟨rfl, rfl⟩ | ⟨rfl, rfl⟩ | ⟨rfl, rfl⟩ | ⟨rfl, rfl⟩ := hcases seq event hevent
    · cases hclosed
    · cases hclosed
    · cases hclosed
    · rfl
  · subst h
    exact ⟨_, rfl, rfl⟩

/-- The read comes after the exit, with the first output no longer retained. -/
def goneRead : ReadResponse := (serverAt twoOutputs 3 1 false).read (some 0) none

/-- The exit is published as number 1, and then the call fails. -/
theorem failed_recovery_publishes_false_exit :
    let s := run (Follower.step twoOutputs) {} [.read 3 1 false]
    s.errored = false ∧ goneRead ∈ s.reads ∧
      ∃ session error, s.session.recoverEvents goneRead = (session, .error error) ∧
        session.events = [.exited 1 0 (some false), .output { seq := 2, stream := .stdout, chunk := [105] }] ∧
        ¬ session.events.map ExecProcessEvent.core <+: twoOutputs.map ExecProcessEvent.core :=
  ⟨rfl, List.mem_singleton.2 rfl, _, _, rfl, rfl, by decide⟩

/-- With all outputs retained the same read is right to guess. -/
theorem failed_recovery_published_retained :
    ¬ GuessesWrong twoOutputs ({} : SessionState) ((serverAt twoOutputs 3 0 false).read (some 0) none) :=
  (failed_recovery_published_iff twoOutputs_serverSequence [.read 3 0 false] rfl _ (List.mem_singleton.2 rfl)).1
    fun session error h => by cases h

end Codex.ProcessEvents
