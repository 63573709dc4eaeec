/-
A client that follows a process publishes the server's events in the server's
order (`published_in_order`).

Recovery knows where an exit goes only from what else is missing. Where it
guesses wrong, because the output that is missing was no longer retained, the
exit's own place stays empty (`Unseen`) and the call ends with an error: so the
chunks either leave a state that is faithful, or one that cannot succeed
(`recoverChunks_spec`).
-/
import Codex.Lib.FiniteMaps
import Codex.Lib.Runs
import Codex.ProcessEvents
import Mathlib.Order.Interval.Finset.Nat

namespace Codex.ProcessEvents

open Runs

/-! ## What a server says -/

/-- The event with a number. -/
def eventAt (E : List ExecProcessEvent) : Nat → Option ExecProcessEvent
  | 0 => none
  | seq + 1 => E[seq]?

def EventIs (E : List ExecProcessEvent) (seq : Nat) (p : ExecProcessEvent → Bool) : Prop :=
  ∃ event, eventAt E seq = some event ∧ p event

/-- All events of one process, numbered from 1: outputs, one exit, one close at the end. -/
structure ServerSequence (E : List ExecProcessEvent) : Prop where
  numbered : ∀ seq event, eventAt E seq = some event → event.seq = some seq
  exit : ∃! seq, EventIs E seq ExecProcessEvent.isExited
  closed : ∀ seq, EventIs E seq ExecProcessEvent.isClosed ↔ seq = E.length

def ExecProcessEvent.outputChunk : ExecProcessEvent → Option ProcessOutputChunk
  | .output chunk => some chunk
  | .exited .. | .closed _ | .failed _ => none

def ExecProcessEvent.exitCode : ExecProcessEvent → Option Int
  | .exited _ exitCode _ => some exitCode
  | .output _ | .closed _ | .failed _ => none

/-- An event but for the sandbox flag, which recovery fills in. -/
def ExecProcessEvent.core : ExecProcessEvent → ExecProcessEvent
  | .exited seq exitCode _ => .exited seq exitCode none
  | .output chunk => .output chunk
  | .closed seq => .closed seq
  | .failed message => .failed message

/-- The server after its first `n` events, the first outputs of them no longer retained. -/
def serverAt (E : List ExecProcessEvent) (n evicted : Nat) (sandboxDenied : Bool) : RunningProcess where
  output := ((E.take n).filterMap ExecProcessEvent.outputChunk).drop evicted
  nextSeq := (E.take n).length + 1
  exitCode := (E.take n).findSome? ExecProcessEvent.exitCode
  closed := (E.take n).any ExecProcessEvent.isClosed
  sandboxDenied

/-- A client, the answers to its reads, and whether a call has failed. -/
structure Follower where
  session : SessionState := {}
  reads : List ReadResponse := []
  errored : Bool := false

inductive FollowerAction where
  | notify (i : Nat)
  | read (n evicted : Nat) (sandboxDenied : Bool)
  | recover (i : Nat)

/-- Notifications come in any order, any number of times; reads ask for what is
after the last published event, and their answers are used when they come. -/
def Follower.step (E : List ExecProcessEvent) (s : Follower) : FollowerAction → Follower
  | .notify i =>
    match E[i]? with
    | none => s
    | some event =>
      match s.session.handleNotification event with
      | (session, .ok _) => { s with session }
      | (session, .error _) => { s with session, errored := true }
  | .read n evicted sandboxDenied =>
    { s with reads := s.reads ++ [(serverAt E n evicted sandboxDenied).read (some s.session.ordered.lastPublishedSeq) none] }
  | .recover i =>
    match s.reads[i]? with
    | none => s
    | some response =>
      match s.session.recoverEvents response with
      | (session, .ok _) => { s with session }
      | (session, .error _) => { s with session, errored := true }

/-! ## The events of a sequence -/

namespace ExecProcessEvent

@[simp] theorem isExited_core (e : ExecProcessEvent) : e.core.isExited = e.isExited := by cases e <;> rfl

@[simp] theorem isClosed_core (e : ExecProcessEvent) : e.core.isClosed = e.isClosed := by cases e <;> rfl

theorem isExited_of_core_eq {e e' : ExecProcessEvent} (h : e.core = e'.core) : e.isExited = e'.isExited := by
  rw [← isExited_core e, h, isExited_core]

theorem isClosed_of_core_eq {e e' : ExecProcessEvent} (h : e.core = e'.core) : e.isClosed = e'.isClosed := by
  rw [← isClosed_core e, h, isClosed_core]

end ExecProcessEvent

variable {E : List ExecProcessEvent}

theorem eventAt_succ (seq : Nat) : eventAt E (seq + 1) = E[seq]? := rfl

variable {seq : Nat} {event : ExecProcessEvent} {n : Nat} {p : ExecProcessEvent → Bool} {target : Nat}
  {s' : SessionState} {e : ExecProcessEvent} {b : Bool} {ordered : OrderedSessionEvents}
  {chunk : ProcessOutputChunk} {response : ReadResponse} {exitKnown : Bool} {pending : Pending}

theorem le_length_of_eventAt (h : eventAt E seq = some event) : 0 < seq ∧ seq ≤ E.length := by
  cases seq with
  | zero => cases h
  | succ seq => exact ⟨Nat.succ_pos _, (List.getElem?_eq_some_iff.1 h).1⟩

/-- An event is among the first `n` when its number is. -/
theorem mem_take_iff : event ∈ E.take n ↔ ∃ seq, seq ≤ n ∧ eventAt E seq = some event := by
  rw [List.mem_iff_getElem?]
  constructor
  · rintro ⟨i, hi⟩
    rw [List.getElem?_take] at hi
    split at hi
    next hlt => exact ⟨i + 1, hlt, hi⟩
    next => cases hi
  · rintro ⟨seq, hle, hevent⟩
    cases seq with
    | zero => cases hevent
    | succ i =>
      refine ⟨i, ?_⟩
      rw [List.getElem?_take, if_pos (Nat.lt_of_succ_le hle)]
      exact hevent

theorem any_take_iff : (E.take n).any p ↔ ∃ seq, seq ≤ n ∧ EventIs E seq p := by
  rw [List.any_eq_true]
  constructor
  · rintro ⟨event, hin, hp⟩
    obtain ⟨seq, hle, hevent⟩ := mem_take_iff.1 hin
    exact ⟨seq, hle, event, hevent, hp⟩
  · rintro ⟨seq, hle, event, hevent, hp⟩
    exact ⟨event, mem_take_iff.2 ⟨seq, hle, hevent⟩, hp⟩

/-! ## The buffer -/

namespace OrderedSessionEvents

/-- A number is waiting, or has been published, only once. -/
def waiting (o : OrderedSessionEvents) (seq : Nat) : Option ExecProcessEvent := o.pending.lookup seq

theorem insertPending_ok {o o' : OrderedSessionEvents} (hseq : event.seq = some seq)
    (h : o.insertPending event = .ok o') :
    (o' = o ∧ (o.waiting seq).isSome) ∨
      (o.waiting seq = none ∧ ∃ bytes, o' = { o with pending := o.pending.insert seq event, pendingBytes := bytes }) := by
  unfold insertPending at h
  rw [hseq] at h
  dsimp only at h
  split at h
  next hin => cases h; exact .inl ⟨rfl, AList.lookup_isSome.2 hin⟩
  next hnot =>
    split at h
    · cases h
    split at h
    · cases h
    split at h
    · cases h
    · cases h
      exact .inr ⟨AList.lookup_eq_none.2 hnot, _, rfl⟩

end OrderedSessionEvents

/-- What a round of publishing does to the buffer: what is published was waiting, what is after it stays. -/
structure Advances (s s' : SessionState) : Prop where
  mono : s.ordered.lastPublishedSeq ≤ s'.ordered.lastPublishedSeq
  taken : ∀ seq, s.ordered.lastPublishedSeq < seq → seq ≤ s'.ordered.lastPublishedSeq → (s.ordered.waiting seq).isSome
  rest : ∀ seq, s'.ordered.lastPublishedSeq < seq → s'.ordered.waiting seq = s.ordered.waiting seq
  failure : s'.ordered.failure = s.ordered.failure

theorem Advances.refl (s : SessionState) : Advances s s :=
  ⟨le_rfl, fun _ hlt hle => absurd hle (Nat.not_le.2 hlt), fun _ _ => rfl, rfl⟩

namespace SessionState

theorem advances_publishRounds (rounds : Nat) (s : SessionState) : Advances s (s.publishRounds rounds).1 := by
  induction rounds generalizing s with
  | zero => exact Advances.refl s
  | succ rounds ih =>
    unfold publishRounds
    split
    next => exact Advances.refl s
    next event hevent =>
      obtain ⟨hmono, htaken, hrest, hfailure⟩ :=
        ih { s with ordered := s.ordered.takeNext event, events := s.events ++ [event] }
      have hnext : ∀ seq, s.ordered.lastPublishedSeq + 1 < seq →
          (s.ordered.takeNext event).waiting seq = s.ordered.waiting seq :=
        fun seq hlt => AList.lookup_erase_ne (Nat.ne_of_gt hlt)
      refine ⟨Nat.le_of_succ_le hmono, fun seq hlt hle => ?_, fun seq hlt => ?_, hfailure⟩
      · rcases Nat.eq_or_lt_of_le (Nat.succ_le_of_lt hlt) with heq | hlt'
        · rw [← heq]
          exact Option.isSome_of_eq_some hevent
        · have h := htaken seq hlt' hle
          rwa [show OrderedSessionEvents.waiting _ seq = _ from hnext seq hlt'] at h
      · rw [hrest seq hlt]
        exact hnext seq (Nat.lt_of_le_of_lt hmono hlt)

/-- With as many rounds as there are events waiting, the next event is not waiting. -/
theorem settled_publishRounds (rounds : Nat) (s : SessionState) (h : s.ordered.pending.entries.length ≤ rounds) :
    (s.publishRounds rounds).1.ordered.waiting ((s.publishRounds rounds).1.ordered.lastPublishedSeq + 1) = none := by
  induction rounds generalizing s with
  | zero =>
    have hnil : s.ordered.pending.entries = [] := List.length_eq_zero_iff.1 (Nat.le_zero.1 h)
    show s.ordered.pending.lookup _ = none
    unfold AList.lookup
    rw [hnil]
    rfl
  | succ rounds ih =>
    unfold publishRounds
    split
    next hnone => exact hnone
    next event hevent =>
      refine ih _ ?_
      have hlen := FiniteMaps.length_erase (Option.isSome_of_eq_some hevent)
      show (s.ordered.pending.erase _).entries.length ≤ rounds
      omega

theorem advances_publishReady (s : SessionState) : Advances s s.publishReady.1 := advances_publishRounds _ s

/-- The next event is not waiting. -/
def Settled (s : SessionState) : Prop := s.ordered.waiting (s.ordered.lastPublishedSeq + 1) = none

theorem settled_publishReady (s : SessionState) : s.publishReady.1.Settled := settled_publishRounds _ s le_rfl

theorem publishReady_covers {s : SessionState}
    (h : ∀ seq, s.ordered.lastPublishedSeq < seq → seq ≤ target → (s.ordered.waiting seq).isSome) :
    target ≤ s.publishReady.1.ordered.lastPublishedSeq := by
  have hadv := advances_publishReady s
  have hsettled := settled_publishReady s
  by_contra hlt
  have hnext := h (s.publishReady.1.ordered.lastPublishedSeq + 1) (Nat.lt_succ_of_le hadv.mono) (Nat.lt_of_not_le hlt)
  rw [← hadv.rest _ (Nat.lt_succ_self _), hsettled] at hnext
  cases hnext

end SessionState

/-! ## What the client holds -/

/-- What was published is the beginning of the sequence, and what is waiting is of it. -/
structure Faithful (E : List ExecProcessEvent) (s : SessionState) : Prop where
  noFailure : s.ordered.failure = none
  bounded : s.ordered.lastPublishedSeq ≤ E.length
  published : s.events.map ExecProcessEvent.core = (E.take s.ordered.lastPublishedSeq).map ExecProcessEvent.core
  exit : s.ordered.exitPublished = (E.take s.ordered.lastPublishedSeq).any ExecProcessEvent.isExited
  closed : s.ordered.closedPublished = (E.take s.ordered.lastPublishedSeq).any ExecProcessEvent.isClosed
  waiting : ∀ seq event, s.ordered.waiting seq = some event → s.ordered.lastPublishedSeq < seq ∧
    ∃ e, eventAt E seq = some e ∧ event.core = e.core

/-- The exit is neither published nor waiting. -/
def Unseen (E : List ExecProcessEvent) (s : SessionState) : Prop :=
  ∀ seq, EventIs E seq ExecProcessEvent.isExited → s.ordered.lastPublishedSeq < seq ∧ s.ordered.waiting seq = none

theorem Unseen.advances {s} (h : Unseen E s) (hadv : Advances s s') : Unseen E s' := by
  intro seq hseq
  obtain ⟨hlt, hnone⟩ := h seq hseq
  have hlt' : s'.ordered.lastPublishedSeq < seq := by
    by_contra hle
    have htaken := hadv.taken seq hlt (Nat.le_of_not_lt hle)
    rw [hnone] at htaken
    cases htaken
  exact ⟨hlt', by rw [hadv.rest seq hlt', hnone]⟩

/-- Something that is not the exit comes into the buffer. -/
theorem Unseen.insert {s} (h : Unseen E s) (hseq : ¬ EventIs E seq ExecProcessEvent.isExited)
    {bytes : Nat} :
    Unseen E { s with ordered := { s.ordered with pending := s.ordered.pending.insert seq event, pendingBytes := bytes } } := by
  intro seq' hseq'
  obtain ⟨hlt, hnone⟩ := h seq' hseq'
  have hne : seq' ≠ seq := by
    rintro rfl
    exact hseq hseq'
  exact ⟨hlt, (AList.lookup_insert_ne hne).trans hnone⟩

namespace Faithful

variable {s : SessionState}

theorem insert (h : Faithful E s) (hlt : s.ordered.lastPublishedSeq < seq)
    (he : eventAt E seq = some e) (hcore : event.core = e.core) {bytes : Nat} :
    Faithful E { s with ordered := { s.ordered with pending := s.ordered.pending.insert seq event, pendingBytes := bytes } } := by
  refine { h with waiting := fun seq' event' hwaiting => ?_ }
  by_cases hseq : seq' = seq
  · subst hseq
    have heq : some event = some event' := (AList.lookup_insert _).symm.trans hwaiting
    cases heq
    exact ⟨hlt, e, he, hcore⟩
  · exact h.waiting seq' event' ((AList.lookup_insert_ne hseq).symm.trans hwaiting)

/-- One round. -/
theorem takeNext (h : Faithful E s)
    (hevent : s.ordered.waiting (s.ordered.lastPublishedSeq + 1) = some event) :
    Faithful E { s with ordered := s.ordered.takeNext event, events := s.events ++ [event] } := by
  obtain ⟨-, e, he, hcore⟩ := h.waiting _ _ hevent
  have hlen : s.ordered.lastPublishedSeq < E.length := (le_length_of_eventAt he).2
  have htake : E.take (s.ordered.lastPublishedSeq + 1) = E.take s.ordered.lastPublishedSeq ++ [e] := by
    rw [List.take_add_one]
    rw [eventAt_succ] at he
    rw [he]
    rfl
  refine ⟨h.noFailure, hlen, ?_, ?_, ?_, fun seq event' hwaiting => ?_⟩
  · show (s.events ++ [event]).map _ = (E.take (s.ordered.lastPublishedSeq + 1)).map _
    rw [htake, List.map_append, List.map_append, h.published, List.map_singleton, List.map_singleton, hcore]
  · show (s.ordered.exitPublished || event.isExited) = (E.take (s.ordered.lastPublishedSeq + 1)).any _
    rw [htake, List.any_append, h.exit, ExecProcessEvent.isExited_of_core_eq hcore, List.any_cons, List.any_nil, Bool.or_false]
  · show (s.ordered.closedPublished || event.isClosed) = (E.take (s.ordered.lastPublishedSeq + 1)).any _
    rw [htake, List.any_append, h.closed, ExecProcessEvent.isClosed_of_core_eq hcore, List.any_cons, List.any_nil, Bool.or_false]
  · have hne : seq ≠ s.ordered.lastPublishedSeq + 1 := by
      rintro rfl
      have hnone : (s.ordered.pending.erase (s.ordered.lastPublishedSeq + 1)).lookup (s.ordered.lastPublishedSeq + 1) = none :=
        AList.lookup_erase ..
      cases hnone.symm.trans hwaiting
    obtain ⟨hlt, hin⟩ := h.waiting seq event' ((AList.lookup_erase_ne hne).symm.trans hwaiting)
    exact ⟨Nat.lt_of_le_of_ne hlt (Ne.symm hne), hin⟩

theorem publishRounds (h : Faithful E s) (rounds : Nat) : Faithful E (s.publishRounds rounds).1 := by
  induction rounds generalizing s with
  | zero => exact h
  | succ rounds ih =>
    unfold SessionState.publishRounds
    split
    next => exact h
    next event hevent => exact ih (h.takeNext hevent)

theorem publishReady (h : Faithful E s) : Faithful E s.publishReady.1 := h.publishRounds _

end Faithful

/-- An event is kept, or was kept already, and what can be published is. -/
theorem insertAndPublish_ok {s : SessionState} (h : s.insertAndPublish event = (s', .ok b)) :
    ∃ ordered, s.ordered.insertPending event = .ok ordered ∧ s' = ({ s with ordered } : SessionState).publishReady.1 := by
  unfold SessionState.insertAndPublish at h
  cases hinsert : s.ordered.insertPending event with
  | error message => rw [hinsert] at h; cases h
  | ok ordered =>
    rw [hinsert] at h
    exact ⟨ordered, rfl, (congrArg Prod.fst h).symm⟩

theorem Faithful.insertPending {s : SessionState} (h : Faithful E s)
    (hseq : event.seq = some seq) (hlt : s.ordered.lastPublishedSeq < seq) (he : eventAt E seq = some e)
    (hcore : event.core = e.core) (hok : s.ordered.insertPending event = .ok ordered) :
    Faithful E { s with ordered } := by
  rcases OrderedSessionEvents.insertPending_ok hseq hok with ⟨rfl, -⟩ | ⟨-, bytes, rfl⟩
  · exact h
  · exact h.insert hlt he hcore

theorem Unseen.insertPending {s : SessionState} (h : Unseen E s)
    (hseq : event.seq = some seq) (hnot : ¬ EventIs E seq ExecProcessEvent.isExited)
    (hok : s.ordered.insertPending event = .ok ordered) : Unseen E { s with ordered } := by
  rcases OrderedSessionEvents.insertPending_ok hseq hok with ⟨rfl, -⟩ | ⟨-, bytes, rfl⟩
  · exact h
  · exact h.insert hnot

theorem Faithful.insertAndPublish {s : SessionState} (h : Faithful E s)
    (hseq : event.seq = some seq) (hlt : s.ordered.lastPublishedSeq < seq) (he : eventAt E seq = some e)
    (hcore : event.core = e.core) (hok : s.insertAndPublish event = (s', .ok b)) : Faithful E s' := by
  obtain ⟨ordered, hinsert, rfl⟩ := insertAndPublish_ok hok
  exact (h.insertPending hseq hlt he hcore hinsert).publishReady

theorem Unseen.insertAndPublish {s : SessionState} (h : Unseen E s)
    (hseq : event.seq = some seq) (hnot : ¬ EventIs E seq ExecProcessEvent.isExited)
    (hok : s.insertAndPublish event = (s', .ok b)) : Unseen E s' := by
  obtain ⟨ordered, hinsert, rfl⟩ := insertAndPublish_ok hok
  exact (h.insertPending hseq hnot hinsert).advances (SessionState.advances_publishReady _)

/-! ## Recovery -/

/-- What a read of the server says, after its first `n` events. -/
structure Honest (E : List ExecProcessEvent) (n : Nat) (response : ReadResponse) : Prop where
  bounded : n ≤ E.length
  nextSeq : response.nextSeq = n + 1
  chunks : ∀ chunk ∈ response.chunks, eventAt E chunk.seq = some (.output chunk)
  exited : response.exited ↔ ∃ seq, seq ≤ n ∧ EventIs E seq ExecProcessEvent.isExited
  exitCode : ∀ seq exitCode sandboxDenied, response.exited → eventAt E seq = some (.exited seq exitCode sandboxDenied) →
    response.exitCode = some exitCode
  closed : response.closed → n = E.length
  noFailure : response.failure = none

theorem not_exited_of_output (h : eventAt E seq = some (.output chunk)) :
    ¬ EventIs E seq ExecProcessEvent.isExited := by
  rintro ⟨event, hevent, hexited⟩
  rw [h] at hevent
  cases hevent
  cases hexited

theorem ServerSequence.eventAt_exit (hE : ServerSequence E) (h : EventIs E seq ExecProcessEvent.isExited) :
    ∃ exitCode sandboxDenied, eventAt E seq = some (.exited seq exitCode sandboxDenied) := by
  obtain ⟨event, hevent, hexited⟩ := h
  have hseq := hE.numbered seq event hevent
  cases event with
  | exited seq' exitCode sandboxDenied =>
    cases hseq
    exact ⟨exitCode, sandboxDenied, hevent⟩
  | output => cases hexited
  | closed => cases hexited
  | failed => cases hexited

theorem ServerSequence.eventAt_closed (hE : ServerSequence E) : eventAt E E.length = some (.closed E.length) := by
  obtain ⟨event, hevent, hclosed⟩ := (hE.closed E.length).2 rfl
  have hseq := hE.numbered _ event hevent
  cases event with
  | closed seq => cases hseq; exact hevent
  | output => cases hclosed
  | exited => cases hclosed
  | failed => cases hclosed

/-- After the recovered chunks: all is as the server says; or an exit was guessed in a wrong place, and the real one was
not seen. -/
def Recovering (E : List ExecProcessEvent) (response : ReadResponse) (s : SessionState) (exitKnown : Bool) : Prop :=
  (Faithful E s ∧ (response.exited → exitKnown = false → Unseen E s)) ∨
    (response.exited ∧ exitKnown = true ∧ Unseen E s)

theorem Recovering.output {s}
    (h : Recovering E response s exitKnown) (hchunk : eventAt E chunk.seq = some (.output chunk))
    (hlt : s.ordered.lastPublishedSeq < chunk.seq) (hok : s.insertAndPublish (.output chunk) = (s', .ok b)) :
    Recovering E response s' exitKnown := by
  have hnot := not_exited_of_output hchunk
  rcases h with ⟨hfaithful, hunseen⟩ | ⟨hexited, hknown, hunseen⟩
  · exact .inl ⟨hfaithful.insertAndPublish rfl hlt hchunk rfl hok,
      fun hexited hknown => (hunseen hexited hknown).insertAndPublish rfl hnot hok⟩
  · exact .inr ⟨hexited, hknown, hunseen.insertAndPublish rfl hnot hok⟩

/-- The exit, put in the first gap before a chunk. -/
theorem Recovering.inferred {s} {exitCode : Int}
    (hE : ServerSequence E) (hresponse : Honest E n response) (h : Recovering E response s false) (hexited : response.exited)
    (hcode : response.exitCode = some exitCode)
    (hok : s.insertAndPublish (.exited (s.ordered.lastPublishedSeq + 1) exitCode (some response.sandboxDenied)) = (s', .ok b)) :
    Recovering E response s' true := by
  rcases h with ⟨hfaithful, hunseen⟩ | ⟨-, hknown, -⟩
  · by_cases hexit : EventIs E (s.ordered.lastPublishedSeq + 1) ExecProcessEvent.isExited
    · obtain ⟨code, sandboxDenied, hevent⟩ := hE.eventAt_exit hexit
      have hsame := hresponse.exitCode _ code sandboxDenied hexited hevent
      rw [hcode] at hsame
      cases hsame
      have hcore : (ExecProcessEvent.exited (s.ordered.lastPublishedSeq + 1) exitCode (some response.sandboxDenied)).core =
        (ExecProcessEvent.exited (s.ordered.lastPublishedSeq + 1) exitCode sandboxDenied).core := rfl
      exact .inl ⟨hfaithful.insertAndPublish rfl (Nat.lt_succ_self _) hevent hcore hok, fun _ hknown => nomatch hknown⟩
    · exact .inr ⟨hexited, rfl, (hunseen hexited rfl).insertAndPublish rfl hexit hok⟩
  · cases hknown

theorem Recovering.inferExit {s}
    {publishedClosed : Bool} {flags} (hE : ServerSequence E) (hresponse : Honest E n response)
    (h : Recovering E response s exitKnown)
    (hok : SessionState.inferExit response s chunk exitKnown publishedClosed = (s', .ok flags)) :
    Recovering E response s' flags.1 := by
  unfold SessionState.inferExit at hok
  dsimp only at hok
  split at hok
  next hcond =>
    simp only [Bool.and_eq_true, Bool.not_eq_true'] at hcond
    obtain ⟨⟨hexited, rfl⟩, -⟩ := hcond
    split at hok
    next => cases hok
    next exitCode hcode =>
      split at hok
      next => cases hok
      next s₁ closed hinsert =>
        cases hok
        exact h.inferred hE hresponse hexited hcode hinsert
  next =>
    cases hok
    exact h

/-- **The chunks leave a faithful state, or one where the exit's own place stays empty.** -/
theorem recoverChunks_spec (hE : ServerSequence E) (hresponse : Honest E n response)
    (chunks : List ProcessOutputChunk) (hchunks : ∀ chunk ∈ chunks, eventAt E chunk.seq = some (.output chunk))
    {s} {publishedClosed : Bool} {flags} (h : Recovering E response s exitKnown)
    (hok : SessionState.recoverChunks response target chunks s exitKnown publishedClosed = (s', .ok flags)) :
    Recovering E response s' flags.1 := by
  induction chunks generalizing s exitKnown publishedClosed with
  | nil =>
    cases hok
    exact h
  | cons chunk rest ih =>
    have hrest : ∀ chunk ∈ rest, eventAt E chunk.seq = some (.output chunk) :=
      fun chunk hin => hchunks chunk (List.mem_cons_of_mem _ hin)
    unfold SessionState.recoverChunks at hok
    split at hok
    next => cases hok
    next =>
      split at hok
      next => cases hok
      next s₁ exitKnown₁ publishedClosed₁ hinfer =>
        have hinferred : Recovering E response s₁ exitKnown₁ := h.inferExit hE hresponse hinfer
        split at hok
        next hlt =>
          split at hok
          next => cases hok
          next s₂ closed hinsert => exact ih hrest (hinferred.output (hchunks chunk (List.mem_cons_self ..)) hlt hinsert) hok
        next => exact ih hrest hinferred hok

/-! ### What is missing -/

theorem mem_rangeKeys {lo hi : Nat} :
    seq ∈ rangeKeys pending lo hi ↔ (lo ≤ seq ∧ seq ≤ hi) ∧ (pending.lookup seq).isSome := by
  unfold rangeKeys
  rw [List.mem_insertionSort, List.mem_filter, decide_eq_true_iff, AList.lookup_isSome, and_comm]
  rfl

theorem sorted_rangeKeys (pending : Pending) (lo hi : Nat) : (rangeKeys pending lo hi).Pairwise (· < ·) := by
  have hnodup : (rangeKeys pending lo hi).Nodup :=
    (List.perm_insertionSort ..).nodup_iff.2 (pending.keys_nodup.filter _)
  have hsorted : (rangeKeys pending lo hi).Pairwise (· ≤ ·) := List.pairwise_insertionSort ..
  exact (hsorted.and hnodup).imp fun h => Nat.lt_of_le_of_ne h.1 h.2

/-- The numbers of `(last, target]` that are waiting, as a set of that size. -/
theorem card_rangeKeys (pending : Pending) (last target : Nat) :
    (rangeKeys pending (last + 1) target).length =
      ((Finset.Icc (last + 1) target).filter fun seq => (pending.lookup seq).isSome).card := by
  have hnodup := (sorted_rangeKeys pending (last + 1) target).imp (fun h => Nat.ne_of_lt h)
  rw [← List.toFinset_card_of_nodup hnodup]
  congr 1
  ext seq
  rw [List.mem_toFinset, mem_rangeKeys, Finset.mem_filter, Finset.mem_Icc]

/-- With as many waiting as there are numbers, all are. -/
theorem all_waiting {last : Nat}
    (h : target - last - (rangeKeys pending (last + 1) target).length = 0) (hlt : last < seq) (hle : seq ≤ target) :
    (pending.lookup seq).isSome := by
  by_contra hnone
  have hsub : ((Finset.Icc (last + 1) target).filter fun seq => (pending.lookup seq).isSome) ⊆
      (Finset.Icc (last + 1) target).erase seq := by
    intro seq' hin
    obtain ⟨hin, hsome⟩ := Finset.mem_filter.1 hin
    refine Finset.mem_erase.2 ⟨?_, hin⟩
    rintro rfl
    exact hnone hsome
  have hcard := Finset.card_le_card hsub
  rw [← card_rangeKeys, Finset.card_erase_of_mem (Finset.mem_Icc.2 ⟨hlt, hle⟩), Nat.card_Icc] at hcard
  omega

/-- With one fewer, all but one are. -/
theorem others_waiting {last missing : Nat}
    (h : target - last - (rangeKeys pending (last + 1) target).length = 1) (hmissing : pending.lookup missing = none)
    (hlt : last < missing) (hle : missing ≤ target) (hseq : last < seq) (hseq' : seq ≤ target)
    (hne : seq ≠ missing) : (pending.lookup seq).isSome := by
  by_contra hnone
  have hsub : ((Finset.Icc (last + 1) target).filter fun seq => (pending.lookup seq).isSome) ⊆
      ((Finset.Icc (last + 1) target).erase seq).erase missing := by
    intro seq' hin
    obtain ⟨hin, hsome⟩ := Finset.mem_filter.1 hin
    refine Finset.mem_erase.2 ⟨?_, Finset.mem_erase.2 ⟨?_, hin⟩⟩
    · rintro rfl
      rw [hmissing] at hsome
      cases hsome
    · rintro rfl
      exact hnone hsome
  have hcard := Finset.card_le_card hsub
  have hin : missing ∈ (Finset.Icc (last + 1) target).erase seq :=
    Finset.mem_erase.2 ⟨Ne.symm hne, Finset.mem_Icc.2 ⟨hlt, hle⟩⟩
  rw [← card_rangeKeys, Finset.card_erase_of_mem hin, Finset.card_erase_of_mem (Finset.mem_Icc.2 ⟨hseq, hseq'⟩),
    Nat.card_Icc] at hcard
  omega

/-- The loop stops at the first number that is not in the list. -/
theorem firstMissingFrom_spec {expected : Nat} {keys} (hsorted : keys.Pairwise (· < ·))
    (hge : ∀ key ∈ keys, expected ≤ key) :
    expected ≤ OrderedSessionEvents.firstMissingFrom expected keys ∧
      OrderedSessionEvents.firstMissingFrom expected keys ∉ keys ∧
      ∀ key, expected ≤ key → key < OrderedSessionEvents.firstMissingFrom expected keys → key ∈ keys := by
  induction keys generalizing expected with
  | nil => exact ⟨le_rfl, List.not_mem_nil, fun key hle hlt => absurd hle (Nat.not_le.2 hlt)⟩
  | cons key rest ih =>
    obtain ⟨hfirst, hsorted⟩ := List.pairwise_cons.1 hsorted
    unfold OrderedSessionEvents.firstMissingFrom
    split
    next heq =>
      subst heq
      obtain ⟨hle, hnot, hbefore⟩ := ih hsorted (fun key' hin => hfirst key' hin)
      refine ⟨Nat.le_of_succ_le hle, fun hin => ?_, fun key' hle' hlt => ?_⟩
      · rcases List.mem_cons.1 hin with heq | hin
        · exact absurd hle (Nat.not_le.2 (Nat.lt_succ_of_le (le_of_eq heq)))
        · exact hnot hin
      · rcases Nat.eq_or_lt_of_le hle' with rfl | hlt'
        · exact List.mem_cons_self ..
        · exact List.mem_cons_of_mem _ (hbefore key' hlt' hlt)
    next hne =>
      have hlt : expected < key := Nat.lt_of_le_of_ne (hge key (List.mem_cons_self ..)) (Ne.symm hne)
      refine ⟨le_rfl, fun hin => ?_, fun key' hle hlt' => absurd hle (Nat.not_le.2 hlt')⟩
      rcases List.mem_cons.1 hin with heq | hin
      · exact hne heq.symm
      · exact absurd (hfirst _ hin) (Nat.not_lt.2 (Nat.le_of_lt hlt))

theorem firstMissingSeq_eq {o : OrderedSessionEvents} {missing : Nat} (hmissing : o.waiting missing = none)
    (hlt : o.lastPublishedSeq < missing) (hle : missing ≤ target)
    (hothers : ∀ seq, o.lastPublishedSeq < seq → seq ≤ target → seq ≠ missing → (o.waiting seq).isSome) :
    o.firstMissingSeq target = missing := by
  obtain ⟨hge, hnot, hbefore⟩ := firstMissingFrom_spec (sorted_rangeKeys o.pending (o.lastPublishedSeq + 1) target)
    fun key hin => (mem_rangeKeys.1 hin).1.1
  rw [mem_rangeKeys] at hnot
  by_contra hne
  rcases Nat.lt_or_gt_of_ne hne with hlt' | hgt
  · have hle' := Nat.le_of_lt (Nat.lt_of_lt_of_le hlt' hle)
    exact hnot ⟨⟨hge, hle'⟩, hothers _ hge hle' hne⟩
  · have hin := (mem_rangeKeys.1 (hbefore missing hlt hgt)).2
    rw [show o.pending.lookup missing = none from hmissing] at hin
    cases hin

/-! ### The end of a recovery -/

theorem Recovering.closed {s}
    (hE : ServerSequence E) (hresponse : Honest E n response) (h : Recovering E response s exitKnown)
    (hok : s.recoverClosed response n = (s', .ok ())) : Recovering E response s' exitKnown := by
  unfold SessionState.recoverClosed at hok
  split at hok
  next hcond =>
    simp only [Bool.and_eq_true, Bool.not_eq_true'] at hcond
    obtain ⟨⟨hclosed, hpublished⟩, -⟩ := hcond
    have hn := hresponse.closed hclosed
    subst hn
    have hevent := hE.eventAt_closed
    have hnot : ¬ EventIs E E.length ExecProcessEvent.isExited := by
      rintro ⟨event, hexit, hexited⟩
      rw [hevent] at hexit
      cases hexit
      cases hexited
    split at hok
    next => cases hok
    next ordered hinsert =>
      cases hok
      rcases h with ⟨hfaithful, hunseen⟩ | ⟨hexited, hknown, hunseen⟩
      · have hlt : s.ordered.lastPublishedSeq < E.length := by
          refine Nat.lt_of_le_of_ne hfaithful.bounded fun heq => ?_
          have hany := any_take_iff.2 ⟨E.length, le_of_eq heq.symm, (hE.closed _).2 rfl⟩
          rw [← hfaithful.closed, hpublished] at hany
          cases hany
        exact .inl ⟨hfaithful.insertPending rfl hlt hevent rfl hinsert,
          fun hexited hknown => (hunseen hexited hknown).insertPending rfl hnot hinsert⟩
      · exact .inr ⟨hexited, hknown, hunseen.insertPending rfl hnot hinsert⟩
  next =>
    cases hok
    exact h

/-- **A recovery that counts nothing missing has everything up to its target.** -/
theorem recoverMissing_spec {response : ReadResponse} {n : Nat} {s s' : SessionState} {exitKnown : Bool}
    (hE : ServerSequence E) (hresponse : Honest E n response) (h : Recovering E response s exitKnown)
    (hok : s.recoverMissing response n exitKnown = (s', .ok ())) :
    Faithful E s' ∧ ∀ seq, s'.ordered.lastPublishedSeq < seq → seq ≤ n → (s'.ordered.waiting seq).isSome := by
  unfold SessionState.recoverMissing at hok
  dsimp only at hok
  split at hok
  next hcond =>
    simp only [Bool.and_eq_true, Bool.not_eq_true'] at hcond
    obtain ⟨hexited, rfl⟩ := hcond
    split at hok
    next => cases hok
    next hone =>
      rw [not_not] at hone
      split at hok
      next => cases hok
      next exitCode hcode =>
        split at hok
        next => cases hok
        next ordered hinsert =>
          cases hok
          obtain ⟨hfaithful, hunseen⟩ | ⟨-, hknown, -⟩ := h
          · obtain ⟨exit, hle, hexit⟩ := hresponse.exited.1 hexited
            obtain ⟨hlt, hnone⟩ := hunseen hexited rfl exit hexit
            have hothers := fun seq (h₁ : _ < seq) (h₂ : seq ≤ _) (h₃ : seq ≠ _) => others_waiting hone hnone hlt hle h₁ h₂ h₃
            rw [firstMissingSeq_eq hnone hlt hle hothers] at hinsert
            obtain ⟨code, sandboxDenied, hevent⟩ := hE.eventAt_exit hexit
            have hsame := hresponse.exitCode _ code sandboxDenied hexited hevent
            rw [hcode] at hsame
            cases hsame
            have hcore : (ExecProcessEvent.exited exit exitCode (some response.sandboxDenied)).core =
              (ExecProcessEvent.exited exit exitCode sandboxDenied).core := rfl
            refine ⟨hfaithful.insertPending rfl hlt hevent hcore hinsert, ?_⟩
            obtain ⟨rfl, hsome⟩ | ⟨-, bytes, rfl⟩ := OrderedSessionEvents.insertPending_ok rfl hinsert
            · rw [hnone] at hsome
              cases hsome
            · intro seq hseq hseq'
              by_cases hne : seq = exit
              · rw [hne]
                exact Option.isSome_of_eq_some (AList.lookup_insert _)
              · exact (congrArg Option.isSome (AList.lookup_insert_ne hne)).trans (hothers seq hseq hseq' hne)
          · cases hknown
  next hcond =>
    split at hok
    next => cases hok
    next hzero =>
      cases hok
      rw [not_not] at hzero
      have hall : ∀ seq, s.ordered.lastPublishedSeq < seq → seq ≤ n → (s.ordered.waiting seq).isSome :=
        fun seq hlt hle => all_waiting hzero hlt hle
      obtain ⟨hfaithful, -⟩ | ⟨hexited, hknown, hunseen⟩ := h
      · exact ⟨hfaithful, hall⟩
      · obtain ⟨exit, hle, hexit⟩ := hresponse.exited.1 hexited
        obtain ⟨hlt, hnone⟩ := hunseen exit hexit
        have hsome := hall exit hlt hle
        rw [hnone] at hsome
        cases hsome

/-! ### The start of a recovery -/

theorem notePendingExit_spec (o : OrderedSessionEvents) (target : Nat) (sandboxDenied : Bool) :
    (∃ key seq exitCode flag flag', o.waiting key = some (.exited seq exitCode flag) ∧
        o.notePendingExit target sandboxDenied =
          ({ o with pending := o.pending.insert key (.exited seq exitCode flag') }, true)) ∨
      (o.notePendingExit target sandboxDenied = (o, false) ∧
        ∀ key event, key ≤ target → o.waiting key = some event → event.isExited = false) := by
  unfold OrderedSessionEvents.notePendingExit
  dsimp only
  split
  next key seq exitCode flag hfirst =>
    obtain ⟨key', hin, hkey'⟩ := List.exists_of_findSome?_eq_some hfirst
    split at hkey'
    next seq' exitCode' flag' hwaiting =>
      cases hkey'
      exact .inl ⟨key, seq, exitCode, flag, _, hwaiting, rfl⟩
    next => cases hkey'
  next hnone =>
    refine .inr ⟨rfl, fun key event hle hwaiting => ?_⟩
    have hin : key ∈ rangeKeys o.pending 0 target :=
      mem_rangeKeys.2 ⟨⟨Nat.zero_le _, hle⟩, Option.isSome_of_eq_some hwaiting⟩
    have hkey := List.findSome?_eq_none_iff.1 hnone key hin
    cases event with
    | exited seq exitCode flag =>
      rw [show o.pending.lookup key = _ from hwaiting] at hkey
      cases hkey
    | output => rfl
    | closed => rfl
    | failed => rfl

/-- Where the loop over the chunks starts. -/
theorem Faithful.recovering {s : SessionState} (hE : ServerSequence E)
    (hresponse : Honest E n response) (h : Faithful E s) {exitPending : Bool}
    (hnote : s.ordered.notePendingExit n response.sandboxDenied = (ordered, exitPending)) :
    Recovering E response { s with ordered } (ordered.exitPublished || exitPending) := by
  rcases notePendingExit_spec s.ordered n response.sandboxDenied with
    ⟨key, seq, exitCode, flag, flag', hwaiting, heq⟩ | ⟨heq, hnot⟩
  · rw [hnote] at heq
    cases heq
    obtain ⟨hlt, e, he, hcore⟩ := h.waiting key _ hwaiting
    have hcore' : (ExecProcessEvent.exited seq exitCode flag').core = e.core := hcore
    refine .inl ⟨h.insert hlt he hcore', fun _ hknown => ?_⟩
    rw [Bool.or_true] at hknown
    cases hknown
  · rw [hnote] at heq
    cases heq
    refine .inl ⟨h, fun hexited hknown seq hseq => ?_⟩
    rw [Bool.or_false, h.exit] at hknown
    obtain ⟨exit, hle, hexit⟩ := hresponse.exited.1 hexited
    cases hE.exit.unique hexit hseq
    have hlt : s.ordered.lastPublishedSeq < seq := by
      by_contra hle'
      have hany := any_take_iff.2 ⟨seq, Nat.le_of_not_lt hle', hseq⟩
      rw [hknown] at hany
      cases hany
    refine ⟨hlt, ?_⟩
    cases hwaiting : s.ordered.waiting seq with
    | none => rfl
    | some event =>
      obtain ⟨-, e, he, hcore⟩ := h.waiting seq event hwaiting
      obtain ⟨e', he', hexited'⟩ := hseq
      rw [he] at he'
      cases he'
      have hfalse := hnot seq event hle hwaiting
      rw [ExecProcessEvent.isExited_of_core_eq hcore, hexited'] at hfalse
      cases hfalse

/-- **A recovery that succeeds leaves a faithful client that has published all the response counts.** -/
theorem recoverEvents_spec {s : SessionState} (hE : ServerSequence E)
    (hresponse : Honest E n response) (h : Faithful E s) (hok : s.recoverEvents response = (s', .ok b)) :
    Faithful E s' ∧ n ≤ s'.ordered.lastPublishedSeq := by
  unfold SessionState.recoverEvents at hok
  rw [hresponse.noFailure] at hok
  dsimp only at hok
  rw [hresponse.nextSeq, Nat.add_sub_cancel] at hok
  split at hok
  next hdone =>
    cases hok
    refine ⟨h, ?_⟩
    simp only [Bool.or_eq_true, decide_eq_true_iff] at hdone
    obtain (hfailed | hclosed) | hle := hdone
    · rw [h.noFailure] at hfailed
      cases hfailed
    · rw [h.closed] at hclosed
      obtain ⟨seq, hle, hseq⟩ := any_take_iff.1 hclosed
      have hlast := (hE.closed seq).1 hseq
      exact Nat.le_trans hresponse.bounded (hlast ▸ hle)
    · exact hle
  next =>
    split at hok
    next => cases hok
    next =>
      split at hok
      next => cases hok
      next s₁ exitKnown publishedClosed hchunks =>
        have hrecovering : Recovering E response s₁ exitKnown :=
          recoverChunks_spec hE hresponse _ hresponse.chunks (h.recovering hE hresponse rfl) hchunks
        split at hok
        next => cases hok
        next s₂ hclosed =>
          split at hok
          next => cases hok
          next s₃ hmissing =>
            obtain ⟨hfaithful, hall⟩ := recoverMissing_spec hE hresponse (hrecovering.closed hE hresponse hclosed) hmissing
            cases hok
            have hready := hfaithful.publishReady
            exact ⟨⟨hready.noFailure, hready.bounded, hready.published, hready.exit, hready.closed, hready.waiting⟩,
              SessionState.publishReady_covers hall⟩

/-! ## Reads and notifications -/

theorem takeChunks_all (chunks taken : List ProcessOutputChunk) (totalBytes nextSeq : Nat) :
    (RunningProcess.takeChunks none chunks taken totalBytes nextSeq).1 = taken ++ chunks := by
  induction chunks generalizing taken totalBytes nextSeq with
  | nil => exact (List.append_nil _).symm
  | cons chunk chunks ih =>
    unfold RunningProcess.takeChunks
    rw [if_neg (by simp), if_neg (by simp), ih, List.append_assoc, List.singleton_append]

theorem exitCode_of_findSome (hE : ServerSequence E) {code : Int}
    (h : (E.take n).findSome? ExecProcessEvent.exitCode = some code) :
    ∃ seq sandboxDenied, seq ≤ n ∧ eventAt E seq = some (.exited seq code sandboxDenied) := by
  obtain ⟨event, hin, hcode⟩ := List.exists_of_findSome?_eq_some h
  obtain ⟨seq, hle, hevent⟩ := mem_take_iff.1 hin
  have hseq := hE.numbered seq event hevent
  cases event with
  | exited seq' code' sandboxDenied =>
    cases hseq
    cases hcode
    exact ⟨seq, sandboxDenied, hle, hevent⟩
  | output => cases hcode
  | closed => cases hcode
  | failed => cases hcode

theorem isSome_exitCode_iff : ((E.take n).findSome? ExecProcessEvent.exitCode).isSome ↔
    ∃ seq, seq ≤ n ∧ EventIs E seq ExecProcessEvent.isExited := by
  rw [List.isSome_findSome?, ← any_take_iff]
  have hsame : (fun event => (ExecProcessEvent.exitCode event).isSome) = ExecProcessEvent.isExited := by
    funext event
    cases event <;> rfl
  rw [hsame]

theorem honest_read (hE : ServerSequence E) (n evicted : Nat) (sandboxDenied : Bool) (afterSeq : Nat) :
    Honest E (E.take n).length ((serverAt E n evicted sandboxDenied).read (some afterSeq) none) := by
  have hlen : (E.take n).length = min n E.length := List.length_take
  have hsame : E.take (E.take n).length = E.take n := by
    rw [hlen, List.take_eq_take_iff]
    omega
  refine ⟨by omega, rfl, fun chunk hchunk => ?_, ?_, fun seq exitCode flag hexited hevent => ?_, fun hclosed => ?_, rfl⟩
  · have hin : chunk ∈ (RunningProcess.takeChunks none
        ((serverAt E n evicted sandboxDenied).output.filter (afterSeq < ·.seq)) [] 0 _).1 := hchunk
    rw [takeChunks_all, List.nil_append] at hin
    obtain ⟨event, hevent, hout⟩ := List.mem_filterMap.1 (List.mem_of_mem_drop (List.mem_of_mem_filter hin))
    obtain ⟨seq, -, hseq⟩ := mem_take_iff.1 hevent
    have hnumber := hE.numbered seq event hseq
    cases event with
    | output chunk' =>
      cases hout
      cases hnumber
      exact hseq
    | exited => cases hout
    | closed => cases hout
    | failed => cases hout
  · rw [← isSome_exitCode_iff, hsame]
    rfl
  · have hsome : ((E.take n).findSome? ExecProcessEvent.exitCode).isSome := hexited
    obtain ⟨code, hcode⟩ := Option.isSome_iff_exists.1 hsome
    obtain ⟨seq', flag', -, hevent'⟩ := exitCode_of_findSome hE hcode
    cases hE.exit.unique ⟨_, hevent, rfl⟩ ⟨_, hevent', rfl⟩
    rw [hevent] at hevent'
    cases hevent'
    exact hcode
  · obtain ⟨seq, hle, hseq⟩ := any_take_iff.1 (show (E.take n).any ExecProcessEvent.isClosed from hclosed)
    cases (hE.closed seq).1 hseq
    omega

theorem publishOrderedEvent_of_ok {s : SessionState} (h : s.handleNotification event = (s', .ok b)) :
    ∃ s₁, s.publishOrderedEvent event = (s₁, .ok b) ∧ s' = s₁.noteChange (event.seq.getD 0) := by
  unfold SessionState.handleNotification at h
  split at h
  next s₁ b₁ hpublish =>
    cases h
    exact ⟨s₁, hpublish, rfl⟩
  next => cases h

theorem Faithful.handleNotification {s : SessionState} {i : Nat}
    (hE : ServerSequence E) (h : Faithful E s) (hevent : E[i]? = some event)
    (hok : s.handleNotification event = (s', .ok b)) : Faithful E s' := by
  obtain ⟨s₁, hpublish, rfl⟩ := publishOrderedEvent_of_ok hok
  have hseq : event.seq = some (i + 1) := hE.numbered (i + 1) event hevent
  suffices hs₁ : Faithful E s₁ from
    ⟨hs₁.noFailure, hs₁.bounded, hs₁.published, hs₁.exit, hs₁.closed, hs₁.waiting⟩
  unfold SessionState.publishOrderedEvent at hpublish
  rw [hseq] at hpublish
  dsimp only at hpublish
  split at hpublish
  next =>
    cases hpublish
    exact h
  next hnew =>
    simp only [Bool.or_eq_true, decide_eq_true_iff, not_or] at hnew
    exact h.insertAndPublish hseq (Nat.lt_of_not_le hnew.2) hevent rfl hpublish

/-! ## Every run -/

namespace Follower

/-- While no call has failed, the client is faithful and the answers are the server's. -/
structure Following (E : List ExecProcessEvent) (s : Follower) : Prop where
  faithful : s.errored = false → Faithful E s.session
  honest : ∀ response ∈ s.reads, ∃ n, Honest E n response

theorem Following.step {s : Follower} (hE : ServerSequence E) (h : s.Following E) (a : FollowerAction) :
    (s.step E a).Following E := by
  cases a with
  | notify i =>
    unfold Follower.step
    dsimp only
    split
    next => exact h
    next event hevent =>
      split
      next session b hok => exact ⟨fun herrored => (h.faithful herrored).handleNotification hE hevent hok, h.honest⟩
      next => exact ⟨nofun, h.honest⟩
  | read n evicted sandboxDenied =>
    refine ⟨h.faithful, fun response hin => ?_⟩
    rcases List.mem_append.1 hin with hold | hnew
    · exact h.honest response hold
    · rw [List.mem_singleton.1 hnew]
      exact ⟨_, honest_read hE n evicted sandboxDenied _⟩
  | recover i =>
    unfold Follower.step
    dsimp only
    split
    next => exact h
    next response hresponse =>
      split
      next session b hok =>
        obtain ⟨n, hn⟩ := h.honest response (List.mem_of_getElem? hresponse)
        exact ⟨fun herrored => (recoverEvents_spec hE hn (h.faithful herrored) hok).1, h.honest⟩
      next => exact ⟨nofun, h.honest⟩

end Follower

theorem Faithful.length {s} (h : Faithful E s) : s.events.length = s.ordered.lastPublishedSeq := by
  have hlen := congrArg List.length h.published
  rw [List.length_map, List.length_map, List.length_take, Nat.min_eq_left h.bounded] at hlen
  exact hlen

theorem Faithful.begins {s} (h : Faithful E s) :
    s.events.map ExecProcessEvent.core <+: E.map ExecProcessEvent.core := by
  rw [h.published, List.map_take]
  exact List.take_prefix ..

theorem countP_le_one_of_unique {l : List ExecProcessEvent}
    (h : ∀ (i j : Nat) (e e' : ExecProcessEvent), l[i]? = some e → p e → l[j]? = some e' → p e' → i = j) :
    l.countP p ≤ 1 := by
  induction l with
  | nil => exact Nat.zero_le _
  | cons a l ih =>
    rw [List.countP_cons]
    split
    next ha =>
      have hnone : l.countP p = 0 := by
        refine List.countP_eq_zero.2 fun e he hp => ?_
        obtain ⟨j, hj⟩ := List.mem_iff_getElem?.1 he
        cases h 0 (j + 1) a e rfl ha hj hp
      omega
    next => exact ih fun i j e e' hi hp hj hp' => Nat.succ.inj (h (i + 1) (j + 1) e e' hi hp hj hp')

/-- At most one published event satisfies what one event of the sequence does. -/
theorem countP_le_one (hp : ∀ e e' : ExecProcessEvent, e.core = e'.core → p e = p e')
    (hunique : ∀ seq seq', EventIs E seq p → EventIs E seq' p → seq = seq') {s : SessionState} (h : Faithful E s) :
    s.events.countP p ≤ 1 := by
  have hcore : (p ∘ ExecProcessEvent.core) = p := by
    funext e
    refine hp _ _ ?_
    cases e <;> rfl
  have heq : s.events.countP p = (E.take s.ordered.lastPublishedSeq).countP p := by
    have hmap := congrArg (List.countP p) h.published
    rw [List.countP_map, List.countP_map, hcore] at hmap
    exact hmap
  rw [heq]
  refine Nat.le_trans (List.Sublist.countP_le (List.take_sublist ..)) (countP_le_one_of_unique fun i j e e' hi he hj he' => ?_)
  exact Nat.succ.inj (hunique (i + 1) (j + 1) ⟨e, hi, he⟩ ⟨e', hj, he'⟩)

/-- **While no call has failed, what the client has published is the beginning of what the server emitted.** -/
theorem published_in_order (hE : ServerSequence E) (actions : List FollowerAction) :
    let s := run (Follower.step E) {} actions
    s.errored = false →
      s.session.events.map ExecProcessEvent.core <+: E.map ExecProcessEvent.core ∧
        s.session.events.countP ExecProcessEvent.isExited ≤ 1 ∧ s.session.events.countP ExecProcessEvent.isClosed ≤ 1 ∧
        ∀ response ∈ s.reads, ∀ session b, s.session.recoverEvents response = (session, .ok b) →
          response.nextSeq - 1 ≤ session.events.length := by
  intro s herrored
  have hstart : ({} : Follower).Following E :=
    ⟨fun _ => ⟨rfl, Nat.zero_le _, rfl, rfl, rfl, fun _ _ hwaiting => nomatch hwaiting⟩,
      fun _ hin => absurd hin List.not_mem_nil⟩
  have h : s.Following E := run_invariant (fun _ a h => h.step hE a) hstart actions
  have hfaithful := h.faithful herrored
  refine ⟨hfaithful.begins, ?_, ?_, fun response hin session b hok => ?_⟩
  · exact countP_le_one (fun _ _ => ExecProcessEvent.isExited_of_core_eq) (fun _ _ h h' => hE.exit.unique h h') hfaithful
  · exact countP_le_one (fun _ _ => ExecProcessEvent.isClosed_of_core_eq)
      (fun _ _ h h' => ((hE.closed _).1 h).trans ((hE.closed _).1 h').symm) hfaithful
  · obtain ⟨n, hn⟩ := h.honest response hin
    obtain ⟨hfaithful', hle⟩ := recoverEvents_spec hE hn hfaithful hok
    rw [hn.nextSeq, hfaithful'.length]
    exact hle

/-- One output, the exit, the close. -/
def exampleSequence : List ExecProcessEvent :=
  [.output { seq := 1, stream := .stdout, chunk := [104, 105] }, .exited 2 0 (some false), .closed 3]

theorem exampleSequence_serverSequence : ServerSequence exampleSequence := by
  have hcases : ∀ seq event, eventAt exampleSequence seq = some event →
      (seq = 1 ∧ event = .output { seq := 1, stream := .stdout, chunk := [104, 105] }) ∨
        (seq = 2 ∧ event = .exited 2 0 (some false)) ∨ (seq = 3 ∧ event = .closed 3) := by
    intro seq event h
    match seq, h with
    | 1, h => cases h; exact .inl ⟨rfl, rfl⟩
    | 2, h => cases h; exact .inr (.inl ⟨rfl, rfl⟩)
    | 3, h => cases h; exact .inr (.inr ⟨rfl, rfl⟩)
  refine ⟨fun seq event h => ?_, ⟨2, ⟨_, rfl, rfl⟩, fun seq h => ?_⟩, fun seq => ⟨fun h => ?_, fun h => ?_⟩⟩
  · obtain ⟨rfl, rfl⟩ | ⟨rfl, rfl⟩ | ⟨rfl, rfl⟩ := hcases seq event h <;> rfl
  · obtain ⟨event, hevent, hexited⟩ := h
    obtain ⟨rfl, rfl⟩ | ⟨rfl, rfl⟩ | ⟨rfl, rfl⟩ := hcases seq event hevent
    · cases hexited
    · rfl
    · cases hexited
  · obtain ⟨event, hevent, hclosed⟩ := h
    obtain ⟨rfl, rfl⟩ | ⟨rfl, rfl⟩ | ⟨rfl, rfl⟩ := hcases seq event hevent
    · cases hclosed
    · cases hclosed
    · rfl
  · subst h
    exact ⟨_, rfl, rfl⟩

/-- The exit's notification comes first and the close's is lost; a read brings the rest. -/
def exampleRun : List FollowerAction := [.notify 1, .read 3 0 false, .recover 0]

theorem published_in_order_recovered :
    (run (Follower.step exampleSequence) {} exampleRun).session.events = exampleSequence ∧
      (run (Follower.step exampleSequence) {} exampleRun).session.events.map ExecProcessEvent.core <+:
        exampleSequence.map ExecProcessEvent.core :=
  ⟨by rfl, (published_in_order exampleSequence_serverSequence exampleRun (by rfl)).1⟩

end Codex.ProcessEvents
