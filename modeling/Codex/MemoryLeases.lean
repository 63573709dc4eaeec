/-
Stage-1 memory jobs are leased exclusively. `Effect` says once what a step can
do to the jobs: claim a thread's job, complete the running job that holds the
given token, delete a thread's job, clear them all, or nothing. The bound on
leased jobs, the row invariant `RowOk` and the ownership of a running row follow
from its cases.
-/
import Codex.MemoryJobs

namespace Codex.Memories

/-! ## Rows and counts -/

namespace MemoryDb

variable (db : MemoryDb) (t : Text) (now : Int)

variable (t' : Text) (job : Job)

theorem stage1Job_set :
    (db.setStage1Job t job).stage1Job t' = if t' = t then some job else db.stage1Job t' := by
  rw [stage1Job, setStage1Job]
  by_cases h : t' = t
  · subst h
    rw [if_pos rfl, AList.lookup_insert]
  · rw [if_neg h, AList.lookup_insert_ne (by simp [h])]
    rfl

theorem stage1Job_enqueue (w : Int) (t : Text) :
    (enqueueGlobalConsolidation db w).stage1Job t = db.stage1Job t :=
  AList.lookup_insert_ne (by simp)

theorem stage1Job_upsertOutput (source : Int) (memory : ExtractedMemory) :
    (upsertOutput now db t source memory).stage1Job t' = db.stage1Job t' := by
  rw [upsertOutput]
  split
  · rfl
  · split <;> rfl

theorem stage1Job_erase (outputs : AList fun _ : Text => Stage1Output) :
    stage1Job { jobs := db.jobs.erase (.memoryStage1, t), outputs } t' = if t' = t then none else db.stage1Job t' := by
  rw [stage1Job]
  by_cases h : t' = t
  · subst h
    rw [if_pos rfl, AList.lookup_erase]
  · rw [if_neg h, AList.lookup_erase_ne (by simp [h])]
    rfl

/-- The number of leased stage-1 jobs. -/
def leased (db : MemoryDb) (now : Int) : Nat := db.leasedJobs now fun _ => true

theorem leased_anti {now now' : Int} (h : now ≤ now') : db.leased now' ≤ db.leased now := by
  refine List.countP_mono_left fun row _ hrow => ?_
  simp only [Job.leased, Bool.and_true, Bool.and_eq_true] at hrow ⊢
  obtain ⟨hkind, hstatus, hlease⟩ := hrow
  refine ⟨hkind, hstatus, ?_⟩
  obtain ⟨lease, hl, hlt⟩ := (Option.any_eq_true _ _).1 hlease
  exact (Option.any_eq_true _ _).2 ⟨lease, hl, decide_eq_true (h.trans_lt (of_decide_eq_true hlt))⟩

theorem leased_insert (key : JobKind × Text) (job : Job) :
    leased { db with jobs := db.jobs.insert key job } now ≤
      db.leased now + if key.1 = .memoryStage1 ∧ job.leased now = true then 1 else 0 := by
  have hsub : ((db.jobs.entries.kerase key).countP fun row =>
      row.1.1 == .memoryStage1 && row.2.leased now && true) ≤ db.leased now :=
    (List.kerase_sublist _ _).countP_le
  rw [leased, leasedJobs, AList.entries_insert, List.countP_cons]
  refine Nat.add_le_add hsub ?_
  split
  next h => simp_all
  next h => exact Nat.zero_le _

theorem leased_enqueue (w now : Int) : (enqueueGlobalConsolidation db w).leased now ≤ db.leased now :=
  (leased_insert db now _ _).trans (by simp)

theorem leased_erase (outputs : AList fun _ : Text => Stage1Output) (now : Int) :
    leased { jobs := db.jobs.erase (.memoryStage1, t), outputs } now ≤ db.leased now :=
  (List.kerase_sublist _ _).countP_le

theorem leased_upsertOutput (source : Int) (memory : ExtractedMemory) (n : Int) :
    (upsertOutput now db t source memory).leased n = db.leased n := by
  rw [upsertOutput]
  split
  · rfl
  · split <;> rfl

theorem leased_set_done (h : job.status ≠ .running) (now : Int) :
    (db.setStage1Job t job).leased now ≤ db.leased now :=
  (leased_insert db now _ job).trans (by simp [Job.leased, h])

end MemoryDb

theorem bmod_le (n m : Nat) : Int.bmod n m ≤ n := by
  have hmod : (n : Int) % m ≤ n := by
    exact_mod_cast Nat.mod_le n m
  rw [Int.bmod]
  split
  · exact hmod
  · omega

theorem asI64_le (n : Nat) : asI64 n ≤ n := bmod_le n (2 ^ 64)

/-! ## What a step can do -/

/-- The thread and token of a completion. -/
def Call.completes : Call → Option (Text × Text)
  | .markSucceeded t token _ _ => some (t, token)
  | .markSucceededNoOutput t token => some (t, token)
  | .markFailed t token _ _ => some (t, token)
  | _ => none

/-- The row a completion leaves: no longer running, with at most one try less, and the last
success either as it was or at the input. -/
structure Completed (job after : Job) : Prop where
  stopped : after.status ≠ .running
  retries : job.retryRemaining - 1 ≤ after.retryRemaining
  success : after.lastSuccessWatermark = job.lastSuccessWatermark ∨ after.lastSuccessWatermark = job.inputWatermark

inductive Effect (maxRunningJobs : Nat) (step : Step) (db : MemoryDb) : Answer → MemoryDb → Prop
  | idle (answer : Answer) (hclaim : ∀ token, answer ≠ .claim (.claimed token)) (htrue : answer ≠ .completed true)
      (hdelete : ∀ t, step.call ≠ .deleteThread t) (hclear : step.call ≠ .clear) :
      Effect maxRunningJobs step db answer db
  | claimed (req : ClaimRequest) (job : Job) (hcall : step.call = .tryClaim req)
      (hstale : ∀ old w, db.stage1Job req.threadId = some old → old.lastSuccessWatermark = some w → w < req.sourceUpdatedAt)
      (hjob : req.upsert maxRunningJobs step.now db = some job) :
      Effect maxRunningJobs step db (.claim (.claimed req.ownershipToken)) (db.setStage1Job req.threadId job)
  | completed (t token : Text) (job after : Job) (db' : MemoryDb) (hcall : step.call.completes = some (t, token))
      (hjob : db.stage1Job t = some job) (hrunning : job.status = .running) (htoken : job.ownershipToken = some token)
      (hafter : Completed job after)
      (hrows : ∀ t', db'.stage1Job t' = if t' = t then some after else db.stage1Job t')
      (hleased : ∀ now, db'.leased now ≤ db.leased now) :
      Effect maxRunningJobs step db (.completed true) db'
  | deleted (t : Text) (db' : MemoryDb) (hcall : step.call = .deleteThread t)
      (hrows : ∀ t', db'.stage1Job t' = if t' = t then none else db.stage1Job t')
      (hleased : ∀ now, db'.leased now ≤ db.leased now) : Effect maxRunningJobs step db .done db'
  | cleared (hcall : step.call = .clear) : Effect maxRunningJobs step db .done .empty

variable {t token : Text} {req : ClaimRequest} {after : Job}

variable {job : Job}

theorem ownedJob_eq_some {db} (h : ownedJob db t token = some job) :
    db.stage1Job t = some job ∧ job.status = .running ∧ job.ownershipToken = some token := by
  obtain ⟨hjob, hand⟩ := Option.filter_eq_some_iff.1 h
  simpa [hjob] using hand

section
variable {maxRunningJobs : Nat} {step : Step} {db : MemoryDb}

theorem claim_effect (hcall : step.call = .tryClaim req) :
    Effect maxRunningJobs step db (step.perform maxRunningJobs db).1 (step.perform maxRunningJobs db).2 := by
  have hidle (outcome : Stage1JobClaimOutcome) (h : ∀ token, outcome ≠ .claimed token) :
      Effect maxRunningJobs step db (.claim outcome) db :=
    .idle _ (fun token heq => h token (Answer.claim.inj heq)) (fun heq => by cases heq)
      (fun t heq => by rw [hcall] at heq; cases heq) (fun heq => by rw [hcall] at heq; cases heq)
  rw [Step.perform, hcall, Call.perform, tryClaimStage1Job]
  split
  · exact hidle _ fun token h => by cases h
  · split
    · exact hidle _ fun token h => by cases h
    next hstale =>
      split
      next job hjob =>
        refine .claimed req job hcall (fun old w hold hw => ?_) hjob
        simp only [hold, hw, Option.bind_some, Option.any_some, decide_eq_true_eq, not_le] at hstale
        exact hstale
      next =>
        refine hidle _ fun token h => ?_
        simp only [skipOutcome] at h
        split at h
        · cases h
        · split at h
          · cases h
          · split at h <;> cases h

/-- A completion that finds its row. -/
theorem completion_effect {db'}
    (hcall : step.call.completes = some (t, token)) (howned : ownedJob db t token = some job)
    (hafter : Completed job after) (hrows : ∀ t', db'.stage1Job t' = (db.setStage1Job t after).stage1Job t')
    (hleased : ∀ now, db'.leased now ≤ (db.setStage1Job t after).leased now) :
    Effect maxRunningJobs step db (.completed true) db' := by
  obtain ⟨hjob, hrunning, htoken⟩ := ownedJob_eq_some howned
  refine .completed t token job after db' hcall hjob hrunning htoken hafter (fun t' => ?_) fun now => ?_
  · rw [hrows, MemoryDb.stage1Job_set]
  · exact (hleased now).trans (db.leased_set_done t after hafter.stopped now)

theorem succeed_completed (now : Int) (job : Job) : Completed job (job.succeed now) :=
  ⟨nofun, Int.sub_le_self _ (by decide), .inr rfl⟩

theorem fail_completed (now : Int) (reason : Text) (delay : Int) (job : Job) : Completed job (job.fail now reason delay) :=
  ⟨nofun, le_rfl, .inl rfl⟩

theorem step_effect (maxRunningJobs : Nat) (step : Step) (db : MemoryDb) :
    Effect maxRunningJobs step db (step.perform maxRunningJobs db).1 (step.perform maxRunningJobs db).2 := by
  obtain ⟨now, call⟩ := step
  have hidle {t token : Text} (hcall : call.completes = some (t, token)) :
      Effect maxRunningJobs ⟨now, call⟩ db (.completed false) db :=
    .idle _ (fun token heq => by cases heq) (fun heq => by cases heq)
      (fun t heq => by rw [show call = _ from heq] at hcall; cases hcall)
      (fun heq => by rw [show call = _ from heq] at hcall; cases hcall)
  cases call with
  | tryClaim req => exact claim_effect rfl
  | markSucceeded t token source memory =>
    rw [Step.perform, Call.perform, markStage1JobSucceeded]
    split
    · exact hidle rfl
    next job howned =>
      refine completion_effect rfl howned (succeed_completed now job) (fun t' => ?_) fun n => ?_
      · exact (MemoryDb.stage1Job_enqueue ..).trans (MemoryDb.stage1Job_upsertOutput ..)
      · exact (MemoryDb.leased_enqueue ..).trans (MemoryDb.leased_upsertOutput ..).le
  | markSucceededNoOutput t token =>
    rw [Step.perform, Call.perform, markStage1JobSucceededNoOutput]
    split
    · exact hidle rfl
    next job howned =>
      split
      · exact hidle rfl
      next source _ =>
        refine completion_effect rfl howned (succeed_completed now job) (fun t' => ?_) fun n => ?_
        · dsimp only [Prod.map_snd, id]
          split
          · exact MemoryDb.stage1Job_enqueue ..
          · rfl
        · dsimp only [Prod.map_snd, id]
          split
          · exact MemoryDb.leased_enqueue ..
          · exact le_rfl
  | markFailed t token reason delay =>
    rw [Step.perform, Call.perform, markStage1JobFailed]
    split
    · exact hidle rfl
    next job howned =>
      exact completion_effect rfl howned (fail_completed now reason delay job) (fun _ => rfl) fun _ => le_rfl
  | deleteThread t =>
    rw [Step.perform, Call.perform, deleteThreadMemory]
    refine .deleted t _ rfl (fun t' => ?_) fun n => ?_
    · dsimp only
      split
      · exact (MemoryDb.stage1Job_enqueue ..).trans (MemoryDb.stage1Job_erase ..)
      · exact MemoryDb.stage1Job_erase ..
    · dsimp only
      split
      · exact (MemoryDb.leased_enqueue ..).trans (MemoryDb.leased_erase ..)
      · exact MemoryDb.leased_erase ..
  | clear => exact .cleared rfl

/-! ## The row invariant -/

/-- Tries are never negative; a running job has one left and an input newer than the last success. -/
structure RowOk (job : Job) : Prop where
  retries : 0 ≤ job.retryRemaining
  running : job.status = .running → 1 ≤ job.retryRemaining ∧
    ∃ input, job.inputWatermark = some input ∧ ∀ w, job.lastSuccessWatermark = some w → w < input

def RowsOk (db : MemoryDb) : Prop := ∀ t job, db.stage1Job t = some job → RowOk job

/-- A last success is kept or exceeded. -/
def WatermarkLe (a b : Option Int) : Prop := ∀ w, a = some w → ∃ w', b = some w' ∧ w ≤ w'

theorem WatermarkLe.refl (a : Option Int) : WatermarkLe a a := fun w h => ⟨w, h, le_rfl⟩

theorem WatermarkLe.trans {a b c} (hab : WatermarkLe a b) (hbc : WatermarkLe b c) : WatermarkLe a c := by
  intro w hw
  obtain ⟨w', hw', hle⟩ := hab w hw
  obtain ⟨w'', hw'', hle'⟩ := hbc w' hw'
  exact ⟨w'', hw'', hle.trans hle'⟩

/-- What the upsert leaves: a running row for the claim, with tries left and the last success kept. -/
structure Claimed (req : ClaimRequest) (db : MemoryDb) (job : Job) : Prop where
  status : job.status = .running
  token : job.ownershipToken = some req.ownershipToken
  input : job.inputWatermark = some req.sourceUpdatedAt
  retries : 1 ≤ job.retryRemaining
  success : ∀ w, job.lastSuccessWatermark = some w → ∃ old, db.stage1Job req.threadId = some old ∧
    old.lastSuccessWatermark = some w
  kept : ∀ old, db.stage1Job req.threadId = some old → job.lastSuccessWatermark = old.lastSuccessWatermark

theorem upsert_claimed {now : Int} (h : req.upsert maxRunningJobs now db = some job) :
    Claimed req db job ∧ db.leased now < maxRunningJobs := by
  rw [ClaimRequest.upsert] at h
  split at h
  next hcount =>
    have hleased : db.leased now < maxRunningJobs := by
      have hle := asI64_le maxRunningJobs
      exact_mod_cast hcount.trans_le hle
    refine ⟨?_, hleased⟩
    split at h
    next hnone =>
      obtain rfl := Option.some.inj h
      refine ⟨rfl, rfl, rfl, (by decide : 1 ≤ defaultRetryRemaining), nofun, fun old hold => ?_⟩
      rw [hnone] at hold
      cases hold
    next old hold =>
      split at h
      next hmay =>
        obtain rfl := Option.some.inj h
        refine ⟨rfl, rfl, rfl, ?_, fun w hw => ⟨old, hold, hw⟩, fun old' hold' => ?_⟩
        · simp only [ClaimRequest.mayUpdate, Bool.and_eq_true, Bool.or_eq_true, decide_eq_true_eq] at hmay
          dsimp only
          split
          · decide
          next hadv => exact hmay.1.2.resolve_right hadv
        · rw [Option.some.inj (hold.symm.trans hold')]
      · cases h
  · cases h

theorem Claimed.rowOk (h : Claimed req db job)
    (hstale : ∀ old w, db.stage1Job req.threadId = some old → old.lastSuccessWatermark = some w → w < req.sourceUpdatedAt) :
    RowOk job where
  retries := by
    have := h.retries
    omega
  running _ := by
    refine ⟨h.retries, req.sourceUpdatedAt, h.input, fun w hw => ?_⟩
    obtain ⟨old, hold, hlast⟩ := h.success w hw
    exact hstale old w hold hlast

theorem Completed.rowOk (h : Completed job after) (hrow : RowOk job) (hrunning : job.status = .running) :
    RowOk after where
  retries := by
    have hr := (hrow.running hrunning).1
    have hle := h.retries
    omega
  running hr := absurd hr h.stopped

theorem Completed.watermark (h : Completed job after) (hrow : RowOk job)
    (hrunning : job.status = .running) : WatermarkLe job.lastSuccessWatermark after.lastSuccessWatermark := by
  rcases h.success with hsame | hinput
  · rw [hsame]
    exact .refl _
  · intro w hw
    obtain ⟨-, input, hi, hlt⟩ := hrow.running hrunning
    exact ⟨input, hinput.trans hi, (hlt w hw).le⟩

variable {answer : Answer} {db' : MemoryDb}

theorem Effect.rowsOk (h : Effect maxRunningJobs step db answer db') (hdb : RowsOk db) : RowsOk db' := by
  intro t job hjob
  cases h with
  | idle => exact hdb t job hjob
  | claimed req claimed hcall hstale hupsert =>
    rw [MemoryDb.stage1Job_set] at hjob
    split at hjob
    · obtain rfl := Option.some.inj hjob
      exact (upsert_claimed hupsert).1.rowOk hstale
    · exact hdb t job hjob
  | completed t' token old after _ hcall hold hrunning htoken hafter hrows =>
    rw [hrows] at hjob
    split at hjob
    · obtain rfl := Option.some.inj hjob
      exact hafter.rowOk (hdb t' old hold) hrunning
    · exact hdb t job hjob
  | deleted t' _ hcall hrows =>
    rw [hrows] at hjob
    split at hjob
    · cases hjob
    · exact hdb t job hjob
  | cleared => cases hjob

theorem Effect.watermark (h : Effect maxRunningJobs step db answer db') (hdb : RowsOk db) {job' : Job}
    (hjob : db.stage1Job t = some job) (hjob' : db'.stage1Job t = some job') :
    WatermarkLe job.lastSuccessWatermark job'.lastSuccessWatermark := by
  have hsame (heq : db.stage1Job t = some job') : WatermarkLe job.lastSuccessWatermark job'.lastSuccessWatermark := by
    rw [Option.some.inj (hjob.symm.trans heq)]
    exact .refl _
  cases h with
  | idle => exact hsame hjob'
  | claimed req claimed hcall hstale hupsert =>
    rw [MemoryDb.stage1Job_set] at hjob'
    split at hjob'
    next ht =>
      obtain rfl := Option.some.inj hjob'
      rw [(upsert_claimed hupsert).1.kept job (ht ▸ hjob)]
      exact .refl _
    next => exact hsame hjob'
  | completed t' token old after _ hcall hold hrunning htoken hafter hrows =>
    rw [hrows] at hjob'
    split at hjob'
    next ht =>
      obtain rfl := Option.some.inj hjob'
      obtain rfl := Option.some.inj (hjob.symm.trans (ht ▸ hold))
      exact hafter.watermark (hdb t job hjob) hrunning
    next => exact hsame hjob'
  | deleted t' _ hcall hrows =>
    rw [hrows] at hjob'
    split at hjob'
    · cases hjob'
    · exact hsame hjob'
  | cleared => cases hjob'

theorem Effect.leased_le (h : Effect maxRunningJobs step db answer db') (hdb : db.leased step.now ≤ maxRunningJobs) :
    db'.leased step.now ≤ maxRunningJobs := by
  cases h with
  | idle => exact hdb
  | claimed req job hcall hstale hupsert =>
    have hlt := (upsert_claimed hupsert).2
    refine (MemoryDb.leased_insert db step.now _ job).trans ?_
    split <;> omega
  | completed _ _ _ _ _ _ _ _ _ _ _ hleased => exact (hleased step.now).trans hdb
  | deleted _ _ _ _ hleased => exact (hleased step.now).trans hdb
  | cleared => exact Nat.zero_le _

/-! ## Ownership -/

/-- The step ends whatever claim the thread's job was under: a new claim of it, a completion, its
deletion or a clear. -/
def Ends (t : Text) (step : Step) (answer : Answer) : Prop :=
  (∃ req token, step.call = .tryClaim req ∧ req.threadId = t ∧ answer = .claim (.claimed token)) ∨
    (∃ token, step.call.completes = some (t, token) ∧ answer = .completed true) ∨
    step.call = .deleteThread t ∨ step.call = .clear

/-- A row that is running after a step was claimed by it, or is as before and the step did not
end its claim. -/
theorem Effect.running_after (h : Effect maxRunningJobs step db answer db')
    (hjob : db'.stage1Job t = some job) (hrunning : job.status = .running) :
    (∃ req, step.call = .tryClaim req ∧ req.threadId = t ∧ answer = .claim (.claimed req.ownershipToken) ∧
      job.ownershipToken = some req.ownershipToken) ∨
    db.stage1Job t = some job ∧ ¬ Ends t step answer := by
  cases h with
  | idle _ hclaim htrue hdelete hclear =>
    refine .inr ⟨hjob, ?_⟩
    rintro (⟨req, token, -, -, rfl⟩ | ⟨token, -, rfl⟩ | hd | hc)
    · exact hclaim token rfl
    · exact htrue rfl
    · exact hdelete t hd
    · exact hclear hc
  | claimed req claimed hcall hstale hupsert =>
    rw [MemoryDb.stage1Job_set] at hjob
    split at hjob
    next ht =>
      obtain rfl := Option.some.inj hjob
      exact .inl ⟨req, hcall, ht.symm, rfl, (upsert_claimed hupsert).1.token⟩
    next hne =>
      refine .inr ⟨hjob, ?_⟩
      rintro (⟨req', token, hcall', ht, -⟩ | ⟨token, -, hfalse⟩ | hd | hc)
      · rw [hcall] at hcall'
        obtain rfl := Call.tryClaim.inj hcall'
        exact hne ht.symm
      · cases hfalse
      · rw [hcall] at hd; cases hd
      · rw [hcall] at hc; cases hc
  | completed t' token old after _ hcall hold _ htoken hafter hrows =>
    rw [hrows] at hjob
    split at hjob
    next =>
      obtain rfl := Option.some.inj hjob
      exact absurd hrunning hafter.stopped
    next hne =>
      refine .inr ⟨hjob, ?_⟩
      rintro (⟨req, token', -, -, hfalse⟩ | ⟨token', hcall', -⟩ | hd | hc)
      · cases hfalse
      · rw [hcall] at hcall'
        exact hne (Prod.mk.inj (Option.some.inj hcall')).1.symm
      · rw [hd] at hcall; cases hcall
      · rw [hc] at hcall; cases hcall
  | deleted t' _ hcall hrows =>
    rw [hrows] at hjob
    split at hjob
    · cases hjob
    next hne =>
      refine .inr ⟨hjob, ?_⟩
      rintro (⟨req, token, hcall', -⟩ | ⟨token, hcall', -⟩ | hd | hc)
      · rw [hcall] at hcall'; cases hcall'
      · rw [hcall] at hcall'; cases hcall'
      · rw [hcall] at hd
        exact hne (Call.deleteThread.inj hd).symm
      · rw [hcall] at hc; cases hc
  | cleared => cases hjob

theorem Effect.completed_owned (h : Effect maxRunningJobs step db (.completed true) db')
    (hcall : step.call.completes = some (t, token)) :
    ∃ job, db.stage1Job t = some job ∧ job.status = .running ∧ job.ownershipToken = some token := by
  cases h with
  | idle _ _ htrue => exact absurd rfl htrue
  | completed t' token' job _ _ hcall' hjob hrunning htoken =>
    obtain ⟨rfl, rfl⟩ := Prod.mk.inj (Option.some.inj (hcall.symm.trans hcall'))
    exact ⟨job, hjob, hrunning, htoken⟩

/-! ## Outputs -/

theorem outputs_enqueue (db : MemoryDb) (w : Int) : (enqueueGlobalConsolidation db w).outputs = db.outputs := rfl

/-- While a thread's output exists its source does not go back. -/
theorem step_outputs (maxRunningJobs : Nat) (step : Step) (db : MemoryDb) {o o'}
    (ho : db.outputs.lookup t = some o) (ho' : (step.perform maxRunningJobs db).2.outputs.lookup t = some o') :
    o.sourceUpdatedAt ≤ o'.sourceUpdatedAt := by
  have hsame (h : db.outputs.lookup t = some o') : o.sourceUpdatedAt ≤ o'.sourceUpdatedAt := by
    rw [Option.some.inj (ho.symm.trans h)]
  have herase {t' : Text} (h : (db.outputs.erase t').lookup t = some o') : o.sourceUpdatedAt ≤ o'.sourceUpdatedAt := by
    by_cases ht : t = t'
    · rw [ht, AList.lookup_erase] at h
      cases h
    · rw [AList.lookup_erase_ne ht] at h
      exact hsame h
  obtain ⟨now, call⟩ := step
  cases call with
  | tryClaim req =>
    refine hsame ?_
    rw [Step.perform, Call.perform, tryClaimStage1Job] at ho'
    split at ho'
    · exact ho'
    · split at ho'
      · exact ho'
      · split at ho' <;> exact ho'
  | markSucceeded t' token source memory =>
    rw [Step.perform, Call.perform, markStage1JobSucceeded] at ho'
    split at ho'
    · exact hsame ho'
    · dsimp only [Prod.map_snd, id] at ho'
      rw [outputs_enqueue, upsertOutput] at ho'
      have hinsert {new : Stage1Output} (hle : t = t' → o.sourceUpdatedAt ≤ new.sourceUpdatedAt)
          (h : (db.outputs.insert t' new).lookup t = some o') : o.sourceUpdatedAt ≤ o'.sourceUpdatedAt := by
        by_cases ht : t = t'
        · subst ht
          rw [AList.lookup_insert] at h
          exact Option.some.inj h ▸ hle rfl
        · rw [AList.lookup_insert_ne ht] at h
          exact hsame h
      split at ho'
      next hnone =>
        refine hinsert (fun ht => ?_) ho'
        rw [← ht] at hnone
        exact absurd (ho.symm.trans hnone) (Option.some_ne_none _)
      next old hold =>
        split at ho'
        next hle =>
          refine hinsert (fun ht => ?_) ho'
          rw [← ht] at hold
          rw [Option.some.inj (ho.symm.trans hold)]
          exact hle
        next => exact hsame ho'
  | markSucceededNoOutput t' token =>
    rw [Step.perform, Call.perform, markStage1JobSucceededNoOutput] at ho'
    split at ho'
    · exact hsame ho'
    · split at ho'
      · exact hsame ho'
      · dsimp only [Prod.map_snd, id] at ho'
        split at ho' <;> exact herase ho'
  | markFailed t' token reason delay =>
    refine hsame ?_
    rw [Step.perform, Call.perform, markStage1JobFailed] at ho'
    split at ho' <;> exact ho'
  | deleteThread t' =>
    rw [Step.perform, Call.perform, deleteThreadMemory] at ho'
    split at ho' <;> exact herase ho'
  | clear => cases ho'

end

/-! ## Whole runs -/

section
variable (maxRunningJobs : Nat)

def answerAt (before : List Step) (step : Step) : Answer := (step.perform maxRunningJobs (run maxRunningJobs before)).1

theorem run_snoc (steps : List Step) (step : Step) :
    run maxRunningJobs (steps ++ [step]) = (step.perform maxRunningJobs (run maxRunningJobs steps)).2 := by
  rw [run, List.foldl_append]
  rfl

theorem run_effect (steps : List Step) (step : Step) :
    Effect maxRunningJobs step (run maxRunningJobs steps) (answerAt maxRunningJobs steps step)
      (run maxRunningJobs (steps ++ [step])) := by
  rw [run_snoc]
  exact step_effect ..

theorem run_rowsOk (steps : List Step) : RowsOk (run maxRunningJobs steps) := by
  induction steps using List.reverseRecOn with
  | nil => exact fun t job h => by cases h
  | append_singleton steps step ih => exact (run_effect maxRunningJobs steps step).rowsOk ih

theorem run_leased {steps} (hclock : (steps.map Step.now).Pairwise (· ≤ ·)) {now : Int}
    (hnow : ∀ step ∈ steps, step.now ≤ now) : (run maxRunningJobs steps).leased now ≤ maxRunningJobs := by
  induction steps using List.reverseRecOn generalizing now with
  | nil => exact Nat.zero_le _
  | append_singleton steps step ih =>
    rw [List.map_append, List.pairwise_append] at hclock
    have hbefore : ∀ s ∈ steps, s.now ≤ step.now := fun s hs =>
      hclock.2.2 s.now (List.mem_map_of_mem hs) step.now (by simp)
    have hstep := (run_effect maxRunningJobs steps step).leased_le (ih hclock.1 hbefore)
    exact (MemoryDb.leased_anti _ (hnow step (by simp))).trans hstep

/-- A running row is under the last claim of its thread that was answered. -/
theorem run_owned (steps : List Step) {t : Text} {job : Job} (hjob : (run maxRunningJobs steps).stage1Job t = some job)
    (hrunning : job.status = .running) :
    ∃ a claim b req, steps = a ++ claim :: b ∧ claim.call = .tryClaim req ∧ req.threadId = t ∧
      job.ownershipToken = some req.ownershipToken ∧
      answerAt maxRunningJobs a claim = .claim (.claimed req.ownershipToken) ∧
      ∀ b₁ s b₂, b = b₁ ++ s :: b₂ → ¬ Ends t s (answerAt maxRunningJobs (a ++ claim :: b₁) s) := by
  induction steps using List.reverseRecOn with
  | nil => cases hjob
  | append_singleton steps step ih =>
    rcases (run_effect maxRunningJobs steps step).running_after hjob hrunning with
      ⟨req, hcall, ht, hanswer, htoken⟩ | ⟨hbefore, hends⟩
    · refine ⟨steps, step, [], req, rfl, hcall, ht, htoken, hanswer, fun b₁ s b₂ hb => ?_⟩
      exact absurd hb (by simp)
    · obtain ⟨a, claim, b, req, rfl, hcall, ht, htoken, hanswer, hb⟩ := ih hbefore
      refine ⟨a, claim, b ++ [step], req, by simp, hcall, ht, htoken, hanswer, fun b₁ s b₂ heq => ?_⟩
      rcases List.eq_nil_or_concat b₂ with rfl | ⟨b₂, last, rfl⟩
      · obtain ⟨rfl, hs⟩ := List.append_inj' heq rfl
        obtain rfl := List.singleton_inj.1 hs
        exact hends
      · have hsplit : b ++ [step] = (b₁ ++ s :: b₂) ++ [last] := by simpa using heq
        exact hb b₁ s b₂ (List.append_inj' hsplit rfl).1

/-- The last success of a row never goes back as long as the row exists. -/
theorem run_watermark (pre mid : List Step) {t : Text} (hrow : ∀ m, m <+: mid → ((run maxRunningJobs (pre ++ m)).stage1Job t).isSome)
    {job job' : Job} (hjob : (run maxRunningJobs pre).stage1Job t = some job)
    (hjob' : (run maxRunningJobs (pre ++ mid)).stage1Job t = some job') :
    WatermarkLe job.lastSuccessWatermark job'.lastSuccessWatermark := by
  induction mid using List.reverseRecOn generalizing job' with
  | nil =>
    rw [List.append_nil] at hjob'
    rw [Option.some.inj (hjob.symm.trans hjob')]
    exact .refl _
  | append_singleton mid step ih =>
    obtain ⟨between, hbetween⟩ := Option.isSome_iff_exists.1 (hrow mid (List.prefix_append ..))
    have hfirst := ih (fun m hm => hrow m (hm.trans (List.prefix_append ..))) hbetween
    rw [← List.append_assoc] at hjob'
    exact hfirst.trans ((run_effect maxRunningJobs (pre ++ mid) step).watermark (run_rowsOk maxRunningJobs _) hbetween hjob')

/-- Nor does the source of a stored output as long as the output exists. -/
theorem run_outputs (pre mid : List Step) (hrow : ∀ m, m <+: mid → ((run maxRunningJobs (pre ++ m)).outputs.lookup t).isSome)
    {o o'} (ho : (run maxRunningJobs pre).outputs.lookup t = some o)
    (ho' : (run maxRunningJobs (pre ++ mid)).outputs.lookup t = some o') : o.sourceUpdatedAt ≤ o'.sourceUpdatedAt := by
  induction mid using List.reverseRecOn generalizing o' with
  | nil =>
    rw [List.append_nil] at ho'
    rw [Option.some.inj (ho.symm.trans ho')]
  | append_singleton mid step ih =>
    obtain ⟨between, hbetween⟩ := Option.isSome_iff_exists.1 (hrow mid (List.prefix_append ..))
    have hfirst := ih (fun m hm => hrow m (hm.trans (List.prefix_append ..))) hbetween
    rw [← List.append_assoc, run_snoc] at ho'
    exact hfirst.trans (step_outputs maxRunningJobs step _ hbetween ho')

end

/-- The token a claim draws. -/
def Step.claimToken (step : Step) : Option Text :=
  match step.call with
  | .tryClaim req => some req.ownershipToken
  | _ => none

theorem claim_unique {steps a b a' b'} {claim claim' : Step}
    (hfresh : (steps.filterMap Step.claimToken).Nodup) (h : steps = a ++ claim :: b) (h' : steps = a' ++ claim' :: b')
    (ht : claim.claimToken = some token) (ht' : claim'.claimToken = some token) : a = a' := by
  have hlater {a c d : List Step} {x y : Step} (hx : x.claimToken = some token) (hy : y.claimToken = some token)
      (hs : steps = a ++ x :: (c ++ y :: d)) : False := by
    rw [hs] at hfresh
    simp [List.filterMap_append, hx, hy, List.nodup_append] at hfresh
  rw [h] at h'
  rcases List.append_eq_append_iff.1 h' with ⟨c, rfl, hc⟩ | ⟨c, rfl, hc⟩
  · cases c with
    | nil => exact (List.append_nil _).symm
    | cons s c =>
      obtain ⟨rfl, rfl⟩ := List.cons.inj hc
      exact (hlater ht ht' h).elim
  · cases c with
    | nil => exact List.append_nil _
    | cons s c =>
      obtain ⟨rfl, rfl⟩ := List.cons.inj hc
      rw [List.append_assoc, List.cons_append] at h
      exact (hlater ht' ht h).elim

/-- **Stage-1 jobs are leased exclusively**, in every run with a non-decreasing clock and fresh tokens. -/
theorem stage1_leases (maxRunningJobs : Nat) (steps : List Step) (hclock : (steps.map Step.now).Pairwise (· ≤ ·))
    (hfresh : (steps.filterMap Step.claimToken).Nodup) :
    (∀ now, (∀ step ∈ steps, step.now ≤ now) → (run maxRunningJobs steps).leased now ≤ maxRunningJobs) ∧
    (∀ pre step post t token, steps = pre ++ step :: post → step.call.completes = some (t, token) →
      answerAt maxRunningJobs pre step = .completed true →
      ∃ a claim b req, pre = a ++ claim :: b ∧ claim.call = .tryClaim req ∧ req.threadId = t ∧
        req.ownershipToken = token ∧ answerAt maxRunningJobs a claim = .claim (.claimed token) ∧
        ∀ b₁ s b₂, b = b₁ ++ s :: b₂ → ¬ Ends t s (answerAt maxRunningJobs (a ++ claim :: b₁) s)) ∧
    (∀ pre step mid step' post t token, steps = pre ++ step :: (mid ++ step' :: post) →
      step.call.completes = some (t, token) → answerAt maxRunningJobs pre step = .completed true →
      step'.call.completes = some (t, token) →
      answerAt maxRunningJobs (pre ++ step :: mid) step' ≠ .completed true) ∧
    (∀ pre mid t, steps = pre ++ mid →
      ((∀ m, m <+: mid → ((run maxRunningJobs (pre ++ m)).stage1Job t).isSome) →
        ∀ job job', (run maxRunningJobs pre).stage1Job t = some job → (run maxRunningJobs steps).stage1Job t = some job' →
          WatermarkLe job.lastSuccessWatermark job'.lastSuccessWatermark) ∧
      ((∀ m, m <+: mid → ((run maxRunningJobs (pre ++ m)).outputs.lookup t).isSome) →
        ∀ o o', (run maxRunningJobs pre).outputs.lookup t = some o → (run maxRunningJobs steps).outputs.lookup t = some o' →
          o.sourceUpdatedAt ≤ o'.sourceUpdatedAt)) ∧
    ∀ t job, (run maxRunningJobs steps).stage1Job t = some job → 0 ≤ job.retryRemaining := by
  have howned (pre : List Step) (step : Step) (t token : Text) (hcall : step.call.completes = some (t, token))
      (htrue : answerAt maxRunningJobs pre step = .completed true) :
      ∃ a claim b req, pre = a ++ claim :: b ∧ claim.call = .tryClaim req ∧ req.threadId = t ∧
        req.ownershipToken = token ∧ answerAt maxRunningJobs a claim = .claim (.claimed token) ∧
        ∀ b₁ s b₂, b = b₁ ++ s :: b₂ → ¬ Ends t s (answerAt maxRunningJobs (a ++ claim :: b₁) s) := by
    have heffect := run_effect maxRunningJobs pre step
    rw [htrue] at heffect
    obtain ⟨job, hjob, hrunning, htoken⟩ := heffect.completed_owned hcall
    obtain ⟨a, claim, b, req, hpre, hclaim, ht, htoken', hanswer, hb⟩ := run_owned maxRunningJobs pre hjob hrunning
    obtain rfl := Option.some.inj (htoken.symm.trans htoken')
    exact ⟨a, claim, b, req, hpre, hclaim, ht, rfl, hanswer, hb⟩
  refine ⟨fun now hnow => run_leased maxRunningJobs hclock hnow, fun pre step _ t token _ => howned pre step t token, ?_, ?_, ?_⟩
  · intro pre step mid step' post t token hsteps hcall htrue hcall' htrue'
    obtain ⟨a, claim, b, req, hpre, hclaim, -, rfl, -, -⟩ := howned pre step t token hcall htrue
    obtain ⟨a', claim', b', req', hpre', hclaim', -, htoken', -, hb'⟩ := howned _ step' t _ hcall' htrue'
    have hsplit : steps = a ++ claim :: (b ++ step :: (mid ++ step' :: post)) := by rw [hsteps, hpre]; simp
    have hsplit' : steps = a' ++ claim' :: (b' ++ step' :: post) := by
      rw [hsteps, ← List.cons_append, ← List.append_assoc, hpre']
      simp
    have htoken : claim.claimToken = some req.ownershipToken := by rw [Step.claimToken, hclaim]
    have htoken'' : claim'.claimToken = some req'.ownershipToken := by rw [Step.claimToken, hclaim']
    have hsame := claim_unique hfresh hsplit hsplit' htoken (htoken' ▸ htoken'')
    subst hsame
    have hrest := List.append_cancel_left (hsplit.symm.trans hsplit')
    obtain ⟨rfl, -⟩ := List.cons.inj hrest
    have hb : b' = b ++ step :: mid := by
      rw [hpre] at hpre'
      simpa using hpre'.symm
    refine hb' b step mid hb (.inr (.inl ⟨_, hcall, ?_⟩))
    rw [← hpre]
    exact htrue
  · rintro pre mid t rfl
    exact ⟨fun hrow job job' => run_watermark maxRunningJobs pre mid hrow,
      fun hrow o o' => run_outputs maxRunningJobs pre mid hrow⟩
  · exact fun t job hjob => (run_rowsOk maxRunningJobs steps t job hjob).retries

/-! ## A stolen lease -/

def claimOf (worker : String) (source : Int) (token : String) : ClaimRequest :=
  { threadId := "t".toList, workerId := worker.toList, sourceUpdatedAt := source, leaseSeconds := 60,
    ownershipToken := token.toList }

/-- A claim whose lease runs out, a second worker's claim, the first worker's late completion and
the second one's. -/
def stolenLease : List Step :=
  [⟨0, .tryClaim (claimOf "a" 5 "one")⟩, ⟨100, .tryClaim (claimOf "b" 5 "two")⟩,
    ⟨110, .markSucceededNoOutput "t".toList "one".toList⟩, ⟨120, .markSucceededNoOutput "t".toList "two".toList⟩]

/-- Only the second worker's completion is answered true, and its claim is the last one. -/
theorem stage1_leases_stolen :
    (run 1 stolenLease).leased 120 ≤ 1 ∧
    answerAt 1 (stolenLease.take 2) ⟨110, .markSucceededNoOutput "t".toList "one".toList⟩ = .completed false ∧
    answerAt 1 (stolenLease.take 3) ⟨120, .markSucceededNoOutput "t".toList "two".toList⟩ = .completed true ∧
    ∃ a claim b req, stolenLease.take 3 = a ++ claim :: b ∧ claim.call = .tryClaim req ∧ req.threadId = "t".toList ∧
      req.ownershipToken = "two".toList ∧ answerAt 1 a claim = .claim (.claimed "two".toList) ∧
      ∀ b₁ s b₂, b = b₁ ++ s :: b₂ → ¬ Ends "t".toList s (answerAt 1 (a ++ claim :: b₁) s) := by
  have h := stage1_leases 1 stolenLease (by decide) (by decide +kernel)
  have htrue : answerAt 1 (stolenLease.take 3) ⟨120, .markSucceededNoOutput "t".toList "two".toList⟩ = .completed true := by
    decide +kernel
  refine ⟨h.1 120 (by decide), by decide +kernel, htrue, ?_⟩
  exact h.2.1 (stolenLease.take 3) ⟨120, .markSucceededNoOutput "t".toList "two".toList⟩ [] _ _ rfl rfl htrue

end Codex.Memories
