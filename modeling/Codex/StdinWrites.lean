/-
`exec_write`: bytes for a process's stdin, with the ids of the writes that were
accepted, so that a client may send a write again after it reconnects.

Requests interleave at their awaits: the process map, the first look at the
accepted ids, the permit of the stdin channel, the second look. Sending and
remembering are one step under the lock.

Source: exec-server/src/local_process.rs, exec-server-protocol/src/protocol.rs
(WriteParams, WriteStatus).
-/
import Codex.Lib.BoundedQueue
import Codex.Lib.Runs
import Codex.Text
import Mathlib.Data.Char
import Mathlib.Data.Finset.Card
import Mathlib.Data.Finset.Dedup
import Mathlib.Data.List.Lex

namespace Codex.StdinWrites

open BoundedQueue Runs

abbrev Bytes := List UInt8

/-! ## Accepted ids -/

@[irreducible] def retainedStdinWriteIdsPerProcess : Nat := 4096

structure AcceptedStdinWriteIds where
  ids : Finset Text := ∅
  order : List Text := []

namespace AcceptedStdinWriteIds

def contains (a : AcceptedStdinWriteIds) (writeId : Text) : Bool := decide (writeId ∈ a.ids)

/-- The loop at the end of `remember`. -/
def evict (ids : Finset Text) : List Text → AcceptedStdinWriteIds
  | [] => { ids, order := [] }
  | evicted :: order =>
    if retainedStdinWriteIdsPerProcess < order.length + 1 then evict (ids.erase evicted) order
    else { ids, order := evicted :: order }

def remember (a : AcceptedStdinWriteIds) (writeId : Text) : AcceptedStdinWriteIds :=
  if a.contains writeId then a else evict (insert writeId a.ids) (a.order ++ [writeId])

end AcceptedStdinWriteIds

/-! ## Requests -/

structure WriteParams where
  processId : Text
  chunk : Bytes
  writeId : Text
  deriving DecidableEq

inductive WriteStatus where
  | accepted
  | unknownProcess
  | stdinClosed
  | starting
  deriving DecidableEq

structure JSONRPCErrorError where
  code : Int
  message : Text
  deriving DecidableEq

def invalidParams (message : String) : JSONRPCErrorError := { code := -32602, message := message.toList }

def internalError (message : String) : JSONRPCErrorError := { code := -32603, message := message.toList }

/-- Bytes handed over to a process's stdin, and the request they came with. -/
structure StdinWrite where
  request : Nat
  params : WriteParams

structure RunningProcess where
  tty : Bool
  pipeStdin : Bool
  acceptedStdinWriteIds : AcceptedStdinWriteIds := {}
  stdin : List StdinWrite := []

/-- The ids of the writes a process accepted, in order. -/
def RunningProcess.acceptedIds (p : RunningProcess) : List Text := p.stdin.map (·.params.writeId)

inductive ProcessEntry where
  | starting
  | running (process : Nat)

/-- Where a request waits. From `firstLook` on it holds the writer and the ids of one process. -/
inductive Stage where
  | lookup
  | firstLook (process : Nat)
  | reserve (process : Nat)
  | secondLook (process : Nat)
  | answered (answer : Except JSONRPCErrorError WriteStatus)
  | cancelled

structure Request where
  params : WriteParams
  stage : Stage := .lookup

/-- The process map; every process that ever ran; the requests, in the order they came. -/
structure Server where
  processes : Text → Option ProcessEntry := fun _ => none
  running : List RunningProcess := []
  requests : List Request := []

inductive Action where
  | starting (processId : Text)
  | started (processId : Text) (tty pipeStdin : Bool)
  | removed (processId : Text)
  | execWrite (params : WriteParams)
  | proceed (request : Nat) (writerOpen : Bool)
  | cancel (request : Nat)

namespace Server

def setEntry (s : Server) (processId : Text) (entry : Option ProcessEntry) : Server :=
  { s with processes := Function.update s.processes processId entry }

def setStage (s : Server) (i : Nat) (r : Request) (stage : Stage) : Server :=
  { s with requests := s.requests.set i { r with stage } }

def answer (s : Server) (i : Nat) (r : Request) (status : WriteStatus) : Server := s.setStage i r (.answered (.ok status))

/-- `permit.send` and `remember`, with no await between them. -/
def send (s : Server) (i : Nat) (r : Request) (n : Nat) (p : RunningProcess) : Server :=
  { s with running := s.running.set n { p with
      stdin := p.stdin ++ [{ request := i, params := r.params }]
      acceptedStdinWriteIds := p.acceptedStdinWriteIds.remember r.params.writeId } }

/-- A request runs to its next await. -/
def proceed (s : Server) (i : Nat) (writerOpen : Bool) (r : Request) : Server :=
  match r.stage with
  | .lookup =>
    match s.processes r.params.processId with
    | none => s.answer i r .unknownProcess
    | some .starting => s.answer i r .starting
    | some (.running n) =>
      match s.running[n]? with
      | none => s
      | some p =>
        if !p.tty && !p.pipeStdin then s.answer i r .stdinClosed
        else s.setStage i r (.firstLook n)
  | .firstLook n =>
    match s.running[n]? with
    | none => s
    | some p =>
      if p.acceptedStdinWriteIds.contains r.params.writeId then s.answer i r .accepted
      else s.setStage i r (.reserve n)
  | .reserve n =>
    if writerOpen then s.setStage i r (.secondLook n)
    else s.setStage i r (.answered (.error (internalError "failed to write to process stdin")))
  | .secondLook n =>
    match s.running[n]? with
    | none => s
    | some p =>
      if p.acceptedStdinWriteIds.contains r.params.writeId then s.answer i r .accepted
      else (s.send i r n p).answer i r .accepted
  | .answered _ => s
  | .cancelled => s

/-- The first lines of `exec_write`: an empty id is refused before anything is awaited. -/
def execWrite (s : Server) (params : WriteParams) : Server :=
  { s with requests := s.requests ++ [{ params, stage :=
      if params.writeId.isEmpty then .answered (.error (invalidParams "writeId must not be empty")) else .lookup }] }

/-- A request that has not returned is dropped at its await. -/
def cancel (s : Server) (i : Nat) (r : Request) : Server :=
  match r.stage with
  | .answered _ => s
  | _ => s.setStage i r .cancelled

def step (s : Server) : Action → Server
  | .starting processId => s.setEntry processId (some .starting)
  | .started processId tty pipeStdin =>
    { s.setEntry processId (some (.running s.running.length)) with running := s.running ++ [{ tty, pipeStdin }] }
  | .removed processId => s.setEntry processId none
  | .execWrite params => s.execWrite params
  | .proceed i writerOpen =>
    match s.requests[i]? with
    | none => s
    | some r => s.proceed i writerOpen r
  | .cancel i =>
    match s.requests[i]? with
    | none => s
    | some r => s.cancel i r

end Server

/-! ## The ids that are kept -/

namespace AcceptedStdinWriteIds

/-- The ids are the last ones of a history, each once. -/
structure Keeps (a : AcceptedStdinWriteIds) (history : List Text) : Prop where
  order : a.order = history.rtake retainedStdinWriteIdsPerProcess
  nodup : a.order.Nodup
  ids : a.ids = a.order.toFinset

variable {a : AcceptedStdinWriteIds} {history : List Text} {writeId : Text}

theorem evict_eq {order} (hn : order.Nodup) : evict order.toFinset order =
      { ids := (order.rtake retainedStdinWriteIdsPerProcess).toFinset
        order := order.rtake retainedStdinWriteIdsPerProcess } := by
  rw [← popOver_eq_rtake]
  induction order with
  | nil => rfl
  | cons evicted order ih =>
    obtain ⟨hnotin, hn⟩ := List.nodup_cons.1 hn
    rw [evict, popOver]
    split
    · rw [List.toFinset_cons, Finset.erase_insert (by rwa [List.mem_toFinset]), ih hn]
    · rfl

theorem keeps_empty : ({} : AcceptedStdinWriteIds).Keeps [] := ⟨(List.rtake_nil _).symm, List.nodup_nil, rfl⟩

theorem Keeps.contains_iff (h : a.Keeps history) :
    a.contains writeId = true ↔ writeId ∈ history.rtake retainedStdinWriteIdsPerProcess := by
  unfold contains
  rw [decide_eq_true_iff, h.ids, List.mem_toFinset, h.order]

theorem Keeps.length_le (h : a.Keeps history) : a.order.length ≤ retainedStdinWriteIdsPerProcess := by
  rw [h.order, length_rtake]
  exact Nat.min_le_left ..

theorem Keeps.remember (h : a.Keeps history) (hnew : a.contains writeId = false) :
    (a.remember writeId).Keeps (history ++ [writeId]) := by
  have hnotin : writeId ∉ a.order := by
    intro hin
    rw [h.order, ← h.contains_iff, hnew] at hin
    cases hin
  have hnodup : (a.order ++ [writeId]).Nodup := List.nodup_append.2 ⟨h.nodup, List.nodup_singleton _, by grind⟩
  have hids : insert writeId a.ids = (a.order ++ [writeId]).toFinset := by
    rw [h.ids, List.toFinset_append, List.toFinset_cons, List.toFinset_nil, Finset.insert_empty, Finset.union_singleton]
  have hlast : (a.order ++ [writeId]).rtake retainedStdinWriteIdsPerProcess =
      (history ++ [writeId]).rtake retainedStdinWriteIdsPerProcess := by
    rw [h.order, rtake_rtake_append]
  have heq : a.remember writeId = evict (a.order ++ [writeId]).toFinset (a.order ++ [writeId]) := by
    unfold AcceptedStdinWriteIds.remember
    rw [if_neg (by rw [hnew]; exact Bool.false_ne_true), hids]
  rw [heq, evict_eq hnodup]
  exact ⟨hlast, hnodup.sublist (rtake_sublist ..), rfl⟩

end AcceptedStdinWriteIds

/-- Between two occurrences of an id lie as many others as are kept. -/
def Apart (history : List Text) : Prop :=
  ∀ before writeId between after, history = before ++ writeId :: between ++ writeId :: after →
    retainedStdinWriteIdsPerProcess ≤ (between.toFinset.erase writeId).card

theorem apart_nil : Apart [] := by
  intro before writeId between after h
  simp at h

theorem Apart.concat {history} {writeId : Text} (h : Apart history)
    (hnodup : (history.rtake retainedStdinWriteIdsPerProcess).Nodup)
    (hnew : writeId ∉ history.rtake retainedStdinWriteIdsPerProcess) : Apart (history ++ [writeId]) := by
  intro before w between after heq
  rcases List.eq_nil_or_concat after with rfl | ⟨after, last, rfl⟩
  · obtain ⟨rfl, hw⟩ := List.append_inj' heq rfl
    obtain rfl : writeId = w := List.singleton_inj.1 hw
    have hfar : retainedStdinWriteIdsPerProcess ≤ between.length := by
      by_contra hlt
      refine hnew ?_
      rw [rtake_append_of_ge _ (by rw [List.length_cons]; omega)]
      simp
    rw [List.append_cons, rtake_append_of_le _ hfar] at hnodup hnew
    calc retainedStdinWriteIdsPerProcess
      _ = (between.rtake retainedStdinWriteIdsPerProcess).toFinset.card := by
        rw [List.toFinset_card_of_nodup hnodup, length_rtake, Nat.min_eq_left hfar]
      _ ≤ (between.toFinset.erase writeId).card := by
        refine Finset.card_le_card fun x hx => ?_
        rw [List.mem_toFinset] at hx
        exact Finset.mem_erase.2 ⟨fun he => hnew (he ▸ hx), List.mem_toFinset.2 (mem_of_mem_rtake hx)⟩
  · rw [List.concat_eq_append, ← List.cons_append, ← List.append_assoc] at heq
    obtain ⟨heq, -⟩ := List.append_inj' heq rfl
    exact h before w between after heq

/-! ## What a step does to the processes -/

/-- What holds of a process at any time. -/
structure RunningProcess.Valid (p : RunningProcess) : Prop where
  keeps : p.acceptedStdinWriteIds.Keeps p.acceptedIds
  apart : Apart p.acceptedIds

theorem valid_started (tty pipeStdin : Bool) : ({ tty, pipeStdin } : RunningProcess).Valid :=
  ⟨AcceptedStdinWriteIds.keeps_empty, apart_nil⟩

variable {p : RunningProcess} {i : Nat}

theorem RunningProcess.Valid.send (h : p.Valid) {params}
    (hnew : p.acceptedStdinWriteIds.contains params.writeId = false) (i : Nat) :
    RunningProcess.Valid { p with
      stdin := p.stdin ++ [{ request := i, params }]
      acceptedStdinWriteIds := p.acceptedStdinWriteIds.remember params.writeId } := by
  have hids : (p.stdin ++ [{ request := i, params : StdinWrite }]).map (·.params.writeId) = p.acceptedIds ++ [params.writeId] :=
    List.map_append
  have hnotin : params.writeId ∉ p.acceptedIds.rtake retainedStdinWriteIdsPerProcess := by
    rw [← h.keeps.contains_iff, hnew]
    exact Bool.false_ne_true
  constructor
  · rw [acceptedIds, hids]
    exact h.keeps.remember hnew
  · rw [acceptedIds, hids]
    exact h.apart.concat (h.keeps.order ▸ h.keeps.nodup) hnotin

namespace Server

theorem running_proceed (s : Server) (i : Nat) (writerOpen : Bool) (r : Request) :
    (s.proceed i writerOpen r).running = s.running ∨
      ∃ n p, s.running[n]? = some p ∧ p.acceptedStdinWriteIds.contains r.params.writeId = false ∧
        (s.proceed i writerOpen r).running = (s.send i r n p).running := by
  unfold proceed
  cases r.stage with
  | lookup =>
    dsimp only
    split
    next => exact .inl rfl
    next => exact .inl rfl
    next n hn =>
      split
      next => exact .inl rfl
      next => split <;> exact .inl rfl
  | firstLook n =>
    dsimp only
    split
    next => exact .inl rfl
    next => split <;> exact .inl rfl
  | reserve n => dsimp only; split <;> exact .inl rfl
  | answered answer | cancelled => exact .inl rfl
  | secondLook n =>
    dsimp only
    split
    next => exact .inl rfl
    next p hp =>
      split
      next => exact .inl rfl
      next hnew => exact .inr ⟨n, p, hp, Bool.eq_false_of_not_eq_true hnew, rfl⟩

theorem running_step (s : Server) (a : Action) :
    (step s a).running = s.running ∨ (∃ tty pipeStdin, (step s a).running = s.running ++ [{ tty, pipeStdin : RunningProcess }]) ∨
      ∃ i r n p, s.running[n]? = some p ∧ p.acceptedStdinWriteIds.contains r.params.writeId = false ∧
        (step s a).running = (s.send i r n p).running := by
  unfold step
  cases a with
  | starting | removed | execWrite => exact .inl rfl
  | started processId tty pipeStdin => exact .inr (.inl ⟨tty, pipeStdin, rfl⟩)
  | proceed i writerOpen =>
    dsimp only
    split
    next => exact .inl rfl
    next r hr =>
      rcases running_proceed s i writerOpen r with h | ⟨n, p, hp, hnew, h⟩
      · exact .inl h
      · exact .inr (.inr ⟨i, r, n, p, hp, hnew, h⟩)
  | cancel i =>
    dsimp only
    split
    next => exact .inl rfl
    next r hr =>
      unfold cancel
      split <;> exact .inl rfl

theorem valid_step {s} (h : ∀ p ∈ s.running, p.Valid) (a : Action) : ∀ p ∈ (step s a).running, p.Valid := by
  rcases running_step s a with heq | ⟨tty, pipeStdin, heq⟩ | ⟨i, r, n, p, hp, hnew, heq⟩ <;> rw [heq]
  · exact h
  · intro p hp
    rcases List.mem_append.1 hp with hp | hp
    · exact h p hp
    · rw [List.mem_singleton.1 hp]
      exact valid_started tty pipeStdin
  · intro q hq
    rcases List.mem_or_eq_of_mem_set hq with hq | rfl
    · exact h q hq
    · exact (h p (List.mem_of_getElem? hp)).send hnew i

theorem valid_run (actions : List Action) : ∀ p ∈ (run step {} actions).running, p.Valid :=
  run_invariant (P := fun s : Server => ∀ p ∈ s.running, p.Valid) (fun _ a h => valid_step h a) (fun _ hp => by cases hp) actions

/-- A request that finds its id accepted is answered, and nothing else changes. -/
theorem proceed_of_contains {s : Server} {n : Nat} {r : Request} (hp : s.running[n]? = some p)
    (hstage : r.stage = .firstLook n ∨ r.stage = .secondLook n)
    (hin : p.acceptedStdinWriteIds.contains r.params.writeId = true) (writerOpen : Bool) :
    s.proceed i writerOpen r = s.answer i r .accepted := by
  unfold proceed
  rcases hstage with h | h <;> rw [h] <;> dsimp only <;> rw [hp] <;> exact if_pos hin

/-- **A retried write is applied once while its id is kept**, and between two writes of one id lie at
least 4096 others. -/
theorem stdin_writes_apart (actions : List Action) :
    (∀ p ∈ (run step {} actions).running,
      (p.acceptedStdinWriteIds.ids = p.acceptedStdinWriteIds.order.toFinset ∧ p.acceptedStdinWriteIds.order.Nodup ∧
        p.acceptedStdinWriteIds.order.length ≤ 4096) ∧
      p.acceptedStdinWriteIds.order = p.acceptedIds.rtake 4096 ∧
      ∀ before writeId between after, p.acceptedIds = before ++ writeId :: between ++ writeId :: after →
        4096 ≤ (between.toFinset.erase writeId).card) ∧
    ∀ i r n p, (run step {} actions).requests[i]? = some r → (run step {} actions).running[n]? = some p →
      r.stage = .firstLook n ∨ r.stage = .secondLook n → r.params.writeId ∈ p.acceptedIds.rtake 4096 →
      ∀ writerOpen, step (run step {} actions) (.proceed i writerOpen) = (run step {} actions).answer i r .accepted := by
  have hval := valid_run actions
  have hsize : retainedStdinWriteIdsPerProcess = 4096 := by unfold retainedStdinWriteIdsPerProcess; rfl
  rw [← hsize]
  refine ⟨fun p hp => ?_, fun i r n p hr hp hstage hin writerOpen => ?_⟩
  · have h := hval p hp
    exact ⟨⟨h.keeps.ids, h.keeps.nodup, h.keeps.length_le⟩, h.keeps.order, h.apart⟩
  · have hin := (hval p (List.mem_of_getElem? hp)).keeps.contains_iff.2 hin
    rw [step, hr]
    exact proceed_of_contains hp hstage hin writerOpen

/-! ## A retry that is slow to look

Ids kept when a request was issued may be evicted before it looks. -/

/-- The request was issued at a process while the process kept the request's id. -/
def IssuedWhileKept (actions : List Action) (i n : Nat) (params : WriteParams) : Prop :=
  ∃ before after, actions = before ++ .execWrite params :: after ∧ (run step {} before).requests.length = i ∧
    ∃ p, (run step {} before).running[n]? = some p ∧ params.writeId ∈ p.acceptedIds.rtake retainedStdinWriteIdsPerProcess

def shell : Text := ['s', 'h']

def write (writeId : Text) : WriteParams := { processId := shell, chunk := [10], writeId }

def done (writeId : Text) : Request := { params := write writeId, stage := .answered (.ok .accepted) }

/-- A shell is the only process; what was sent to it, and the requests so far. -/
def Shell (sent : List StdinWrite) (requests : List Request) (s : Server) : Prop :=
  s.processes shell = some (.running 0) ∧ s.requests = requests ∧
    ∃ p, s.running = [p] ∧ p.pipeStdin = true ∧ p.stdin = sent ∧ p.Valid

variable {sent : List StdinWrite} {requests : List Request} {s : Server} {writeId : Text}

theorem shell_started : Shell [] [] (step {} (.started shell false true)) :=
  ⟨rfl, rfl, _, rfl, rfl, rfl, valid_started false true⟩

theorem Shell.issue (h : Shell sent requests s) (hid : writeId ≠ []) :
    Shell sent (requests ++ [{ params := write writeId }]) (step s (.execWrite (write writeId))) := by
  obtain ⟨hentry, hreq, hp⟩ := h
  refine ⟨hentry, ?_, hp⟩
  have hne : (write writeId).writeId.isEmpty = false := List.isEmpty_eq_false_iff.2 hid
  rw [step, execWrite, hreq, hne, if_neg Bool.false_ne_true]

def proceedToEnd (i : Nat) : List Action := List.replicate 4 (.proceed i true)

theorem step_proceed {r} (hr : s.requests[i]? = some r) (writerOpen : Bool) :
    step s (.proceed i writerOpen) = s.proceed i writerOpen r := by
  rw [step, hr]

/-- A request whose id is not kept goes through all its awaits and sends. -/
theorem run_proceedToEnd {n : Nat} {params}
    (hi : s.requests[i]? = some { params }) (hentry : s.processes params.processId = some (.running n))
    (hp : s.running[n]? = some p) (hpipe : p.pipeStdin = true)
    (hnew : p.acceptedStdinWriteIds.contains params.writeId = false) :
    run step s (proceedToEnd i) = (s.send i { params } n p).answer i { params } .accepted := by
  have hlt : i < s.requests.length := (List.getElem?_eq_some_iff.1 hi).1
  have hlook : step s (.proceed i true) = s.setStage i { params } (.firstLook n) := by
    rw [step_proceed hi, proceed, hentry]
    dsimp only
    rw [hp]
    dsimp only
    rw [hpipe, Bool.not_true, Bool.and_false, if_neg Bool.false_ne_true]
  have hafter (stage : Stage) : (s.setStage i { params } stage).requests[i]? = some { params, stage } :=
    List.getElem?_set_self hlt
  have hagain (stage stage' : Stage) :
      (s.setStage i { params } stage).setStage i { params, stage } stage' = s.setStage i { params } stage' := by
    unfold setStage
    rw [List.set_set]
  have hfirst : step (s.setStage i { params } (.firstLook n)) (.proceed i true) = s.setStage i { params } (.reserve n) := by
    rw [step_proceed (hafter _), proceed]
    dsimp only
    rw [show (s.setStage i { params } (.firstLook n)).running[n]? = some p from hp]
    dsimp only
    rw [hnew, if_neg Bool.false_ne_true, hagain]
  have hreserve : step (s.setStage i { params } (.reserve n)) (.proceed i true) = s.setStage i { params } (.secondLook n) := by
    rw [step_proceed (hafter _), proceed]
    dsimp only
    rw [if_pos rfl, hagain]
  have hsecond : step (s.setStage i { params } (.secondLook n)) (.proceed i true) =
      (s.send i { params } n p).answer i { params } .accepted := by
    rw [step_proceed (hafter _), proceed]
    dsimp only
    rw [show (s.setStage i { params } (.secondLook n)).running[n]? = some p from hp]
    dsimp only
    rw [hnew, if_neg Bool.false_ne_true]
    unfold answer setStage send
    rw [List.set_set]
  unfold proceedToEnd
  rw [List.replicate_succ, run_cons, hlook, List.replicate_succ, run_cons, hfirst, List.replicate_succ, run_cons, hreserve,
    List.replicate_one, run_cons, hsecond, run_nil]

theorem Shell.resume (h : Shell sent requests s) (hi : requests[i]? = some { params := write writeId })
    (hnew : writeId ∉ (sent.map (·.params.writeId)).rtake retainedStdinWriteIdsPerProcess) :
    Shell (sent ++ [{ request := i, params := write writeId }])
      (requests.set i (done writeId)) (run step s (proceedToEnd i)) := by
  obtain ⟨hentry, rfl, p, hrun, hpipe, rfl, hval⟩ := h
  have hnot : p.acceptedStdinWriteIds.contains (write writeId).writeId = false :=
    Bool.eq_false_of_not_eq_true fun hin => hnew (hval.keeps.contains_iff.1 hin)
  have hp : s.running[0]? = some p := by rw [hrun, List.getElem?_cons_zero]
  rw [run_proceedToEnd hi hentry hp hpipe hnot]
  have hone : ((s.send i { params := write writeId } 0 p).answer i { params := write writeId } .accepted).running =
      [{ p with
        stdin := p.stdin ++ [{ request := i, params := write writeId }]
        acceptedStdinWriteIds := p.acceptedStdinWriteIds.remember writeId }] := by
    unfold answer setStage send
    rw [hrun, List.set_cons_zero]
    rfl
  exact ⟨hentry, rfl, _, hone, hpipe, rfl, hval.send hnot i⟩

/-- Writes that come and end one after the other. -/
def writeAll (i : Nat) : List Text → List Action
  | [] => []
  | writeId :: ids => .execWrite (write writeId) :: proceedToEnd i ++ writeAll (i + 1) ids

theorem Shell.writeAll (ids : List Text) (h : Shell sent requests s) (hids : [] ∉ ids)
    (hnodup : ids.Nodup) (hfresh : ∀ w ∈ sent, w.params.writeId ∉ ids) :
    ∃ sent' requests', sent'.map (·.params.writeId) = ids ∧ requests'.length = ids.length ∧
      Shell (sent ++ sent') (requests ++ requests') (run step s (writeAll requests.length ids)) := by
  induction ids generalizing s sent requests with
  | nil => exact ⟨[], [], rfl, rfl, by rwa [List.append_nil, List.append_nil]⟩
  | cons writeId ids ih =>
    obtain ⟨hself, hnodup⟩ := List.nodup_cons.1 hnodup
    have hissued := h.issue fun he => hids (he ▸ List.mem_cons_self)
    have hnew : writeId ∉ (sent.map (·.params.writeId)).rtake retainedStdinWriteIdsPerProcess := by
      intro hin
      obtain ⟨w, hw, rfl⟩ := List.mem_map.1 (mem_of_mem_rtake hin)
      exact hfresh w hw List.mem_cons_self
    have hsent := hissued.resume (i := requests.length) List.getElem?_concat_length hnew
    rw [List.set_append_right _ _ (Nat.le_refl _), Nat.sub_self, List.set_cons_zero] at hsent
    have hfresh' : ∀ w ∈ sent ++ [{ request := requests.length, params := write writeId }], w.params.writeId ∉ ids := by
      intro w hw hin
      rcases List.mem_append.1 hw with hw | hw
      · exact hfresh w hw (List.mem_cons_of_mem _ hin)
      · rw [List.mem_singleton.1 hw] at hin
        exact hself hin
    obtain ⟨sent', requests', hmap, hlen, hshell⟩ := ih hsent (fun h => hids (List.mem_cons_of_mem _ h)) hnodup hfresh'
    refine ⟨{ request := requests.length, params := write writeId } :: sent', done writeId :: requests', ?_, ?_, ?_⟩
    · rw [List.map_cons, hmap]
      rfl
    · rw [List.length_cons, hlen, List.length_cons]
    · rw [Server.writeAll, List.cons_append, run_cons, run_append, List.append_cons sent, List.append_cons requests]
      rw [List.length_append, List.length_singleton] at hshell
      exact hshell

/-- Ids no longer than the run needs, all different. -/
def fresh (c : Char) : List Text := (List.range retainedStdinWriteIdsPerProcess).map fun n => List.replicate (n + 1) c

theorem length_fresh (c : Char) : (fresh c).length = retainedStdinWriteIdsPerProcess := by
  rw [fresh, List.length_map, List.length_range]

theorem nodup_fresh (c : Char) : (fresh c).Nodup := by
  refine List.Nodup.map (fun m n h => ?_) List.nodup_range
  have h := congrArg List.length h
  rw [List.length_replicate, List.length_replicate] at h
  omega

theorem mem_fresh {c : Char} (h : writeId ∈ fresh c) : writeId.head? = some c := by
  obtain ⟨n, -, rfl⟩ := List.mem_map.1 h
  rfl

/-- The last ids are the new ones, when as many came as are kept. -/
theorem rtake_append_fresh (ids : List Text) (c : Char) :
    (ids ++ fresh c).rtake retainedStdinWriteIdsPerProcess = fresh c := by
  rw [rtake_append_of_le ids (length_fresh c).ge, rtake_of_length_le (length_fresh c).le]

def firstWrite : List Action := .started shell false true :: .execWrite (write ['a']) :: proceedToEnd 0

/-- One write; two more requests with its id, which do not look yet; and each
of these looks only after it was evicted. -/
def slowRetries : List Action :=
  firstWrite ++ .execWrite (write ['a']) :: .execWrite (write ['a']) :: (writeAll 3 (fresh 'b') ++ (proceedToEnd 1 ++
    (writeAll (3 + retainedStdinWriteIdsPerProcess) (fresh 'c') ++ proceedToEnd 2)))

theorem shell_firstWrite :
    Shell [{ request := 0, params := write ['a'] }] [done ['a']] (run step {} firstWrite) := by
  have h := (shell_started.issue (List.cons_ne_nil 'a' [])).resume (i := 0) rfl (by
    rw [List.map_nil, List.rtake_nil]
    exact List.not_mem_nil)
  rwa [List.nil_append, List.nil_append, List.set_cons_zero] at h

theorem kept_of_shell {actions} (hlen : requests.length = i)
    (h : Shell [{ request := 0, params := write ['a'] }] requests (run step {} actions)) (after : List Action) :
    IssuedWhileKept (actions ++ .execWrite (write ['a']) :: after) i 0 (write ['a']) := by
  obtain ⟨-, hreq, p, hrun, -, hstdin, -⟩ := h
  refine ⟨actions, after, rfl, by rw [hreq, hlen], p, by rw [hrun, List.getElem?_cons_zero], ?_⟩
  rw [RunningProcess.acceptedIds, hstdin, rtake_of_length_le (by unfold retainedStdinWriteIdsPerProcess; simp)]
  exact List.mem_singleton.2 rfl

theorem not_mem_fresh {c : Char} (h : c ≠ 'a') : ['a'] ∉ fresh c := fun hin => h (Option.some.inj (mem_fresh hin)).symm

theorem shell_slowRetries : ∃ sent requests, Shell sent requests (run step {} slowRetries) ∧
    { request := 1, params := write ['a'] } ∈ sent ∧ { request := 2, params := write ['a'] } ∈ sent := by
  have hissued := (shell_firstWrite.issue (List.cons_ne_nil 'a' [])).issue (List.cons_ne_nil 'a' [])
  obtain ⟨bs, rs, hbs, hrs, hfill⟩ := hissued.writeAll (fresh 'b') (fun h => nomatch mem_fresh h) (nodup_fresh 'b')
    (by simpa [write] using not_mem_fresh (by decide))
  have hfirst := hfill.resume (i := 1) (show _ = some ({ params := write ['a'] } : Request) from rfl) (by
    rw [List.map_append, hbs, rtake_append_fresh]
    exact not_mem_fresh (by decide))
  have hsent : ∀ w ∈ [{ request := 0, params := write ['a'] : StdinWrite }] ++ bs ++ [{ request := 1, params := write ['a'] }],
      w.params.writeId ∉ fresh 'c' := by
    intro w hw hin
    have hb : w.params.writeId = ['a'] ∨ w.params.writeId ∈ fresh 'b' := by
      rw [← hbs]
      rcases List.mem_append.1 hw with hw | hw
      · rcases List.mem_append.1 hw with hw | hw
        · exact .inl (by rw [List.mem_singleton.1 hw]; rfl)
        · exact .inr (List.mem_map_of_mem hw)
      · exact .inl (by rw [List.mem_singleton.1 hw]; rfl)
    rcases hb with h | h
    · exact not_mem_fresh (by decide) (h ▸ hin)
    · exact absurd ((mem_fresh h).symm.trans (mem_fresh hin)) (by decide)
  obtain ⟨cs, rs', hcs, -, hfill⟩ := hfirst.writeAll (fresh 'c') (fun h => nomatch mem_fresh h) (nodup_fresh 'c') hsent
  have hsecond := hfill.resume (i := 2) (show _ = some ({ params := write ['a'] } : Request) from rfl) (by
    rw [List.map_append, hcs, rtake_append_fresh]
    exact not_mem_fresh (by decide))
  have hlen : (([done ['a']] ++ [{ params := write ['a'] : Request }] ++ [{ params := write ['a'] : Request }] ++ rs).set 1 (done ['a'])).length =
      3 + retainedStdinWriteIdsPerProcess := by
    rw [List.length_set, List.length_append, hrs, length_fresh]
    rfl
  rw [hlen, ← run_append, ← run_append] at hsecond
  have hrun : run step {} slowRetries = run step (run step (step (step (run step {} firstWrite) (.execWrite (write ['a'])))
      (.execWrite (write ['a']))) (writeAll 3 (fresh 'b')))
      (proceedToEnd 1 ++ (writeAll (3 + retainedStdinWriteIdsPerProcess) (fresh 'c') ++ proceedToEnd 2)) := by
    rw [slowRetries, run_append, run_cons, run_cons, run_append]
  rw [hrun]
  exact ⟨_, _, hsecond, by simp, by simp⟩

/-- Two requests issued while their id was kept, and both were sent. -/
theorem issued_while_kept_sends_again :
    ¬ ∀ actions i j n params params', IssuedWhileKept actions i n params → IssuedWhileKept actions j n params' →
      params.writeId = params'.writeId → ∀ p, (run step {} actions).running[n]? = some p →
      { request := i, params } ∈ p.stdin → { request := j, params := params' } ∈ p.stdin → i = j := by
  intro hall
  obtain ⟨sent, requests, ⟨-, -, p, hrun, -, rfl, -⟩, hone, htwo⟩ := shell_slowRetries
  have hfirst : IssuedWhileKept slowRetries 1 0 (write ['a']) := kept_of_shell rfl shell_firstWrite _
  have hsecond : IssuedWhileKept slowRetries 2 0 (write ['a']) := by
    have hissued := shell_firstWrite.issue (List.cons_ne_nil 'a' [])
    have hrun : run step {} (firstWrite ++ [.execWrite (write ['a'])]) = _ := run_concat _ _ _
    rw [← hrun] at hissued
    have h := kept_of_shell (i := 2) rfl hissued
    unfold slowRetries
    rw [List.append_cons]
    exact h _
  have h := hall slowRetries 1 2 0 _ _ hfirst hsecond rfl p (by rw [hrun, List.getElem?_cons_zero]) hone htwo
  cases h

end Server

end Codex.StdinWrites
