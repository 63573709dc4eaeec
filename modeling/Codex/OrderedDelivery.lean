/-
What a run of pushes releases. Whatever order the records come in, and however
often each comes, the batches a run releases are, end to end, the first
accepted payload of sequence number 0, of 1, and so on (`pushAll_ordered`). A
payload is accepted by the first push of its sequence number that returns no
error.

The run keeps `Delivering`: what was released so far is a prefix of the first
accepted payloads, and what waits in the buffer are first accepted payloads
further on.
-/
import Codex.OrderedFrames

namespace Codex.NoiseRelay

open OrderedCiphertextFrames

/-- One call of `push` and its answer. -/
structure PushRecord where
  seq : U32
  payload : Bytes
  result : Except ExecServerError (List Bytes)

def pushRecord (f : OrderedCiphertextFrames) (call : U32 × Bytes) : PushRecord :=
  { seq := call.1, payload := call.2, result := (f.push call.1 call.2).1 }

/-- The calls in order on a fresh buffer: their record, and the buffer left behind. -/
def pushAll (calls : List (U32 × Bytes)) : List PushRecord × OrderedCiphertextFrames :=
  calls.foldl (fun s call => (s.1 ++ [pushRecord s.2 call], (s.2.push call.1 call.2).2)) ([], {})

/-- The batches released, end to end. -/
def released (log : List PushRecord) : List Bytes := log.flatMap fun r => r.result.toOption.getD []

/-- The payload of the first push of sequence number `n` that was not refused. -/
def firstAccepted (log : List PushRecord) (n : Nat) : Option Bytes :=
  (log.find? fun r => r.seq.val = n && r.result.isOk).map (·.payload)

theorem pushAll_snoc (calls : List (U32 × Bytes)) (call : U32 × Bytes) :
    pushAll (calls ++ [call]) =
      ((pushAll calls).1 ++ [pushRecord (pushAll calls).2 call], ((pushAll calls).2.push call.1 call.2).2) := by
  unfold pushAll
  rw [List.foldl_append, List.foldl_cons, List.foldl_nil]

@[simp] theorem released_append (log : List PushRecord) (r : PushRecord) :
    released (log ++ [r]) = released log ++ r.result.toOption.getD [] := by
  unfold released
  rw [List.flatMap_append, List.flatMap_singleton]

theorem firstAccepted_append (log : List PushRecord) (r : PushRecord) (n : Nat) :
    firstAccepted (log ++ [r]) n =
      (firstAccepted log n).or (if r.seq.val = n && r.result.isOk then some r.payload else none) := by
  unfold firstAccepted
  rw [List.find?_append]
  cases log.find? fun r => r.seq.val = n && r.result.isOk with
  | some q => rfl
  | none =>
    rw [List.find?_singleton]
    split <;> rfl

variable {log : List PushRecord} {n : Nat} {payload : Bytes} {f : OrderedCiphertextFrames} {seq : U32}

theorem firstAccepted_append_of_some
    (h : firstAccepted log n = some payload) (r : PushRecord) : firstAccepted (log ++ [r]) n = some payload := by
  rw [firstAccepted_append, h, Option.some_or]

theorem firstAccepted_append_self {r} (h : firstAccepted log r.seq.val = none)
    (hr : r.result.isOk = true) : firstAccepted (log ++ [r]) r.seq.val = some r.payload := by
  rw [firstAccepted_append, h, Option.none_or, if_pos (by simp [hr])]

theorem firstAccepted_append_of_ne {r}
    (h : r.seq.val ≠ n ∨ r.result.isOk = false) : firstAccepted (log ++ [r]) n = firstAccepted log n := by
  rw [firstAccepted_append, if_neg (by rcases h with h | h <;> simp [h]), Option.or_none]

/-- What has been released, and what waits, after the calls of `log`. -/
structure Delivering (log : List PushRecord) (f : OrderedCiphertextFrames) : Prop where
  buffered : f.Buffered
  released : ∃ n ≤ f.nextSeq.val, (f.nextSeq ≠ maxSeq → n = f.nextSeq.val) ∧
    (released log).map some = (List.range n).map (firstAccepted log)
  waiting : ∀ n payload, f.waiting n = some payload → firstAccepted log n = some payload
  accepted : f.nextSeq ≠ maxSeq → ∀ n payload, firstAccepted log n = some payload →
    n < f.nextSeq.val ∨ f.waiting n = some payload

theorem waiting_empty (seq : U32) (n : Nat) : ({ nextSeq := seq } : OrderedCiphertextFrames).waiting n = none := by
  unfold waiting
  split
  · exact AList.lookup_empty _
  · rfl

theorem buffered_empty (seq : U32) : ({ nextSeq := seq } : OrderedCiphertextFrames).Buffered := by
  refine ⟨?_, ?_, rfl, Nat.zero_le _⟩ <;> intro n p h <;> rw [waiting_empty] at h <;> cases h

theorem delivering_start : Delivering [] {} := by
  refine ⟨buffered_empty 0, ⟨0, Nat.le_refl _, fun _ => rfl, rfl⟩, fun n p h => ?_, fun _ n p h => by cases h⟩
  rw [waiting_empty] at h
  cases h

/-- A prefix of the first accepted payloads stays one when a call is recorded. -/
theorem map_firstAccepted_append {out : List Bytes}
    (h : out.map some = (List.range n).map (firstAccepted log)) (r : PushRecord) :
    out.map some = (List.range n).map (firstAccepted (log ++ [r])) := by
  rw [h]
  apply List.map_congr_left
  intro i hi
  have hmem : firstAccepted log i ∈ out.map some := by
    rw [h]
    exact List.mem_map_of_mem hi
  obtain ⟨payload, -, hp⟩ := List.mem_map.1 hmem
  rw [← hp, firstAccepted_append_of_some hp.symm]

/-- A call that changes nothing and releases nothing: a duplicate, or a refused record. -/
theorem Delivering.unchanged (h : Delivering log f) {r : PushRecord} (hr : r.result.toOption.getD [] = [])
    (hdup : r.result.isOk = true → r.seq.val < f.nextSeq.val ∨ (f.waiting r.seq.val).isSome) :
    Delivering (log ++ [r]) f := by
  obtain ⟨n, hle, heq, hrel⟩ := h.released
  refine ⟨h.buffered, ⟨n, hle, heq, ?_⟩, fun m p hm => firstAccepted_append_of_some (h.waiting m p hm) r, ?_⟩
  · rw [released_append, hr, List.append_nil]
    exact map_firstAccepted_append hrel r
  · intro hne m p hm
    cases hold : firstAccepted log m with
    | some q =>
      rw [firstAccepted_append_of_some hold] at hm
      rw [← Option.some.inj hm]
      exact h.accepted hne m q hold
    | none =>
      by_cases hself : r.seq.val = m ∧ r.result.isOk = true
      · obtain ⟨rfl, hok⟩ := hself
        rcases hdup hok with hlt | hw
        · exact .inl hlt
        · obtain ⟨q, hq⟩ := Option.isSome_iff_exists.1 hw
          rw [h.waiting _ _ hq] at hold
          cases hold
      · rw [firstAccepted_append_of_ne ((not_and_or.1 hself).imp_right Bool.eq_false_of_not_eq_true), hold] at hm
        cases hm

/-- A record ahead of the cursor is buffered. -/
theorem Delivering.insert (h : Delivering log f) (hnew : seq ∉ f.pending) (hlt : f.nextSeq < seq)
    (hwin : ¬ maxReorderDistance < seq.val - f.nextSeq.val)
    (hcap : ¬ maxPendingBytes < f.pendingBytes + payload.length) :
    Delivering (log ++ [{ seq, payload, result := .ok [] }])
      { f with pending := f.pending.insert seq payload, pendingBytes := f.pendingBytes + payload.length } := by
  have hltv : f.nextSeq.val < seq.val := hlt
  have hne : f.nextSeq ≠ maxSeq := by
    intro he
    rw [he, maxSeq_val] at hltv
    omega
  have hfresh : firstAccepted log seq.val = none := by
    cases hfa : firstAccepted log seq.val with
    | none => rfl
    | some q =>
      rcases h.accepted hne _ _ hfa with hbelow | hw
      · omega
      · rw [waiting_val] at hw
        exact absurd (AList.lookup_isSome.1 (by rw [hw]; rfl)) hnew
  have hself : firstAccepted (log ++ [{ seq, payload, result := .ok [] }]) seq.val = some payload :=
    firstAccepted_append_self (r := { seq, payload, result := .ok [] }) hfresh rfl
  have hwait : ∀ m, ({ f with pending := f.pending.insert seq payload, pendingBytes := f.pendingBytes + payload.length } :
      OrderedCiphertextFrames).waiting m = if m = seq.val then some payload else f.waiting m :=
    fun m => waiting_insert
  have hbytes := waitingBytes_insert hnew payload
  obtain ⟨n, hle, heq, hrel⟩ := h.released
  refine ⟨⟨?_, ?_, ?_, by simpa using Nat.le_of_not_lt hcap⟩, ⟨n, hle, heq, ?_⟩, ?_, ?_⟩
  · intro m p hm
    rw [hwait] at hm
    split at hm
    · next he => rw [he]; exact hlt
    · exact h.buffered.above m p hm
  · intro m p hm
    rw [hwait] at hm
    split at hm
    · next he => rw [he]; exact Nat.le_of_not_lt hwin
    · exact h.buffered.inWindow m p hm
  · have := h.buffered.counted
    rw [this]
    exact hbytes.symm
  · rw [released_append]
    change (NoiseRelay.released log ++ []).map some = _
    rw [List.append_nil]
    exact map_firstAccepted_append hrel _
  · intro m p hm
    rw [hwait] at hm
    split at hm
    · next he =>
      cases hm
      rw [he]
      exact hself
    · exact firstAccepted_append_of_some (h.waiting m p hm) _
  · intro _ m p hm
    rw [hwait]
    by_cases he : m = seq.val
    · rw [he, hself] at hm
      rw [if_pos he]
      exact .inr hm
    · rw [if_neg he]
      rw [firstAccepted_append_of_ne (.inl (Ne.symm he))] at hm
      exact h.accepted hne m p hm

/-- The record at the cursor is released with the run behind it. -/
theorem Delivering.release {g : OrderedCiphertextFrames} (h : Delivering log f)
    {run : List Bytes} (hrun : Released f run g) :
    Delivering (log ++ [{ seq := f.nextSeq, payload, result := .ok (payload :: run) }]) g := by
  have hcur := hrun.cursor
  have hne : f.nextSeq ≠ maxSeq := by
    intro he
    rw [he, maxSeq_val] at hcur
    omega
  have hfresh : firstAccepted log f.nextSeq.val = none := by
    cases hfa : firstAccepted log f.nextSeq.val with
    | none => rfl
    | some q =>
      rcases h.accepted hne _ _ hfa with hbelow | hw
      · omega
      · have := h.buffered.above _ _ hw
        omega
  have hself := firstAccepted_append_self (r := { seq := f.nextSeq, payload, result := .ok (payload :: run) }) hfresh rfl
  obtain ⟨n, hle, heq, hrel⟩ := h.released
  refine ⟨hrun.buffered, ⟨g.nextSeq.val, Nat.le_refl _, fun _ => rfl, ?_⟩, ?_, ?_⟩
  · rw [released_append]
    change (NoiseRelay.released log ++ payload :: run).map some = _
    rw [hcur, Nat.add_assoc, List.range_add, List.map_append, List.map_append,
      map_firstAccepted_append hrel { seq := f.nextSeq, payload, result := .ok (payload :: run) }, heq hne]
    congr 1
    apply List.ext_getElem (by simp [Nat.add_comm])
    intro i hi _
    simp only [List.getElem_map, List.getElem_range]
    cases i with
    | zero => exact hself.symm
    | succ i =>
      have hi' : i < run.length := by simpa using hi
      have hw := h.waiting _ _ (hrun.run_waiting i hi')
      rw [List.getElem_cons_succ, show f.nextSeq.val + (i + 1) = f.nextSeq.val + 1 + i by omega,
        firstAccepted_append_of_some hw]
  · intro m p hm
    rw [hrun.left] at hm
    split at hm
    · cases hm
    · exact firstAccepted_append_of_some (h.waiting m p hm) _
  · intro _ m p hm
    by_cases hlt : m < g.nextSeq.val
    · exact .inl hlt
    · right
      rw [hrun.left, if_neg hlt]
      rw [firstAccepted_append_of_ne (.inl (by change f.nextSeq.val ≠ m; omega))] at hm
      rcases h.accepted hne m p hm with hb | hw
      · omega
      · exact hw

/-- The run reached the last sequence number: the buffer is dropped for good. -/
theorem Delivering.exhausted (h : Delivering log f)
    {r : PushRecord} (hr : r.result = .error sequenceExhausted) :
    Delivering (log ++ [r]) { nextSeq := maxSeq } := by
  obtain ⟨n, hle, -, hrel⟩ := h.released
  refine ⟨buffered_empty _, ⟨n, ?_, fun hne => absurd rfl hne, ?_⟩, fun m p hm => ?_, fun hne => absurd rfl hne⟩
  · have := f.nextSeq.isLt
    rw [maxSeq_val]
    omega
  · rw [released_append, hr]
    change (NoiseRelay.released log ++ []).map some = _
    rw [List.append_nil]
    exact map_firstAccepted_append hrel r
  · rw [waiting_empty] at hm
    cases hm

/-- **One push.** -/
theorem Delivering.push (h : Delivering log f)
    (call : U32 × Bytes) : Delivering (log ++ [pushRecord f call]) (f.push call.1 call.2).2 := by
  obtain ⟨seq, payload⟩ := call
  unfold pushRecord OrderedCiphertextFrames.push
  split
  · next hdup =>
    refine h.unchanged rfl fun _ => hdup.imp_right fun hmem => ?_
    rw [waiting_val]
    exact AList.lookup_isSome.2 hmem
  next hnot =>
  rw [not_or] at hnot
  split
  · next hlt =>
    split
    · exact h.unchanged rfl fun hok => by cases hok
    next hwin =>
    split
    · exact h.unchanged rfl fun hok => by cases hok
    next hcap =>
    exact h.insert hnot.2 hlt hwin hcap
  · next hge =>
    obtain rfl : seq = f.nextSeq := Fin.le_antisymm (Fin.not_lt.1 hge) (Fin.not_lt.1 hnot.1)
    obtain ⟨run, hok, hrun⟩ | herr := releaseRun_spec h.buffered [payload]
    · rw [hok]
      exact h.release hrun
    · rw [herr]
      exact h.exhausted rfl

theorem delivering_pushAll (calls : List (U32 × Bytes)) : Delivering (pushAll calls).1 (pushAll calls).2 := by
  induction calls using List.reverseRecOn with
  | nil => exact delivering_start
  | append_singleton calls call ih =>
    rw [pushAll_snoc]
    exact ih.push call

/-- A refused record leaves the buffer as it was; only the push whose run
reaches the last sequence number drops it. -/
theorem push_error (hf : f.Buffered) {e} (h : (f.push seq payload).1 = .error e) :
    (f.push seq payload).2 = f ∨
      (e = sequenceExhausted ∧ seq = f.nextSeq ∧ (f.push seq payload).2 = { nextSeq := maxSeq }) := by
  unfold OrderedCiphertextFrames.push at h ⊢
  split at h
  · cases h
  next hnot =>
  rw [not_or] at hnot
  rw [if_neg (not_or.2 hnot)]
  split at h
  · next hlt =>
    left
    rw [if_pos hlt]
    split
    · rfl
    next hwin =>
    rw [if_neg hwin] at h
    split
    · rfl
    next hcap =>
    rw [if_neg hcap] at h
    cases h
  · next hge =>
    right
    rw [if_neg hge]
    obtain ⟨run, hok, -⟩ | herr := releaseRun_spec hf [payload]
    · rw [hok] at h
      cases h
    · rw [herr] at h ⊢
      cases h
      exact ⟨rfl, Fin.le_antisymm (Fin.not_lt.1 hge) (Fin.not_lt.1 hnot.1), rfl⟩

/-- **Reordered records are released exactly once and in order**, from any sequence of pushes. -/
theorem pushAll_ordered (calls : List (U32 × Bytes)) :
    let log := (pushAll calls).1
    let f := (pushAll calls).2
    (∃ n ≤ f.nextSeq.val, (f.nextSeq ≠ maxSeq → n = f.nextSeq.val) ∧
        (released log).map some = (List.range n).map (firstAccepted log)) ∧
      (∀ seq ∈ f.pending.keys, f.nextSeq < seq ∧ seq.val - f.nextSeq.val ≤ maxReorderDistance) ∧
      f.pendingBytes = (f.pending.entries.map fun e => e.2.length).sum ∧ f.pendingBytes ≤ maxPendingBytes ∧
      ∀ seq payload e, (f.push seq payload).1 = .error e →
        (f.push seq payload).2 = f ∨
          (e = sequenceExhausted ∧ seq = f.nextSeq ∧ (f.push seq payload).2 = { nextSeq := maxSeq }) := by
  intro log f
  have h : Delivering log f := delivering_pushAll calls
  refine ⟨h.released, ?_, h.buffered.counted, h.buffered.capped, fun seq payload e he => push_error h.buffered he⟩
  intro seq hseq
  obtain ⟨payload, hp⟩ := Option.isSome_iff_exists.1 (AList.lookup_isSome.2 (AList.mem_keys.2 hseq))
  rw [← waiting_val] at hp
  exact ⟨h.buffered.above _ _ hp, h.buffered.inWindow _ _ hp⟩

/-! ## The push that exhausts the sequence numbers -/

/-- Sequence numbers 0 to `n - 1` in order, each with an empty payload. -/
def consecutive (n : Nat) : List (U32 × Bytes) := (List.range n).map fun i => (Fin.ofNat (2 ^ 32) i, [])

theorem push_cursor (h : seq ≠ maxSeq) (payload : Bytes) :
    (({ nextSeq := seq } : OrderedCiphertextFrames).push seq payload).2 = { nextSeq := Fin.ofNat _ (seq.val + 1) } := by
  have hlt : seq.val + 1 < 2 ^ 32 := by
    have : seq.val ≠ 2 ^ 32 - 1 := fun he => h (Fin.ext he)
    omega
  have hadv : ({ nextSeq := seq } : OrderedCiphertextFrames).advance = .ok { nextSeq := ⟨seq.val + 1, hlt⟩ } := by
    unfold advance
    rw [dif_pos hlt]
  have hseq : Fin.ofNat (2 ^ 32) (seq.val + 1) = ⟨seq.val + 1, hlt⟩ := Fin.ext (Nat.mod_eq_of_lt hlt)
  rw [hseq]
  unfold OrderedCiphertextFrames.push
  rw [if_neg (not_or.2 ⟨Fin.lt_irrefl _, AList.notMem_empty _⟩), if_neg (Fin.lt_irrefl _)]
  unfold releaseRun
  split
  · next he => rw [hadv] at he; cases he
  · next he =>
    rw [hadv] at he
    cases he
    rfl

theorem pushAll_consecutive (h : n < 2 ^ 32) :
    (pushAll (consecutive n)).2 = { nextSeq := Fin.ofNat _ n } := by
  induction n with
  | zero => rfl
  | succ n ih =>
    have hval : (Fin.ofNat (2 ^ 32) n).val = n := Nat.mod_eq_of_lt (by omega)
    have hne : Fin.ofNat (2 ^ 32) n ≠ maxSeq := by
      intro he
      rw [Fin.ext_iff, hval, maxSeq_val] at he
      omega
    have hsnoc : consecutive (n + 1) = consecutive n ++ [(Fin.ofNat _ n, [])] := by
      unfold consecutive
      rw [List.range_succ, List.map_append, List.map_singleton]
    rw [hsnoc, pushAll_snoc, ih (by omega), push_cursor hne, hval]

/-- Every record but the last two released in order, and the last one waiting. -/
def exhaustingCalls : List (U32 × Bytes) := consecutive (2 ^ 32 - 2) ++ [(maxSeq, [])]

/-- The push of the last record but one fails, and the cursor has moved. -/
theorem push_exhausted_changes :
    ((pushAll exhaustingCalls).2.push (Fin.ofNat _ (2 ^ 32 - 2)) []).1 = .error sequenceExhausted ∧
      ((pushAll exhaustingCalls).2.push (Fin.ofNat _ (2 ^ 32 - 2)) []).2 ≠ (pushAll exhaustingCalls).2 := by
  have hval : (Fin.ofNat (2 ^ 32) (2 ^ 32 - 2)).val = 2 ^ 32 - 2 := rfl
  have hbefore : (pushAll exhaustingCalls).2 =
      { nextSeq := Fin.ofNat _ (2 ^ 32 - 2), pending := AList.insert maxSeq [] ∅, pendingBytes := 0 } := by
    unfold exhaustingCalls
    rw [pushAll_snoc, pushAll_consecutive (by omega)]
    rfl
  have hbuffered := (delivering_pushAll exhaustingCalls).buffered
  have hwait : (pushAll exhaustingCalls).2.waiting maxSeq.val = some [] := by
    rw [hbefore, waiting_val]
    exact AList.lookup_insert _
  have hseq : (pushAll exhaustingCalls).2.nextSeq = Fin.ofNat _ (2 ^ 32 - 2) := by rw [hbefore]
  generalize (pushAll exhaustingCalls).2 = f at hbuffered hwait hseq ⊢
  have hpush : f.push (Fin.ofNat _ (2 ^ 32 - 2)) [] = f.releaseRun [[]] := by
    unfold OrderedCiphertextFrames.push
    rw [← hseq, if_neg, if_neg (Fin.lt_irrefl _)]
    rintro (h | h)
    · exact Fin.lt_irrefl _ h
    · obtain ⟨p, hp⟩ := Option.isSome_iff_exists.1 (AList.lookup_isSome.2 h)
      rw [← waiting_val] at hp
      have := hbuffered.above _ _ hp
      omega
  rw [hpush]
  obtain ⟨run, -, hrun⟩ | herr := releaseRun_spec hbuffered [[]]
  · exfalso
    -- The last record waits at the new cursor, so the run cannot end before it.
    have hcur := hrun.cursor
    rw [hseq, hval] at hcur
    have hleft := hrun.left maxSeq.val
    rw [if_neg (by rw [maxSeq_val]; omega), hwait] at hleft
    have := hrun.buffered.above _ _ hleft
    omega
  · rw [herr]
    refine ⟨rfl, fun he => ?_⟩
    have := congrArg OrderedCiphertextFrames.nextSeq he
    rw [hseq] at this
    exact absurd this (by decide)

end Codex.NoiseRelay
