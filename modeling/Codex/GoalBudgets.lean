/-
What the operations on thread goals keep to. `Change` says all that a call can do to
a thread's goal.

The tokens are a sum as long as it is held by 64 bits; beyond that SQLite adds
floating-point numbers.
-/
import Codex.Lib.Runs
import Codex.ThreadGoals

namespace Codex.Goals

open EpochMillis SqliteNumbers Runs

variable {T R : Type} (reals : Reals R)

/-! ## Budgets -/

def ThreadGoalRow.WithinBudget (row : ThreadGoalRow R) : Prop :=
  row.status = .active → ∀ budget, row.tokenBudget = some budget → row.tokensUsed.atLeast reals budget = false

/-- The same of a snapshot. -/
def ThreadGoal.WithinBudget (goal : ThreadGoal T) : Prop :=
  goal.status = .active → ∀ budget, goal.tokenBudget = some budget → goal.tokensUsed < budget

/-! ## What a call does -/

inductive Event (T : Type) where
  | installed (threadId : T) (goalId : Text) (start : Int64)
  | accepted (threadId : T) (goalId : Text) (tokenDelta : Int64)

def Event.threadId : Event T → T
  | installed threadId .. | accepted threadId .. => threadId

/-- What a call does to the goal of a thread. -/
inductive Change (threadId : T) : Option (ThreadGoalRow R) → Option (ThreadGoalRow R) → Option (Event T) → Prop
  | kept {row} {ev : Option (Event T)} (elsewhere : ∀ e ∈ ev, e.threadId ≠ threadId) : Change threadId row row ev
  | installed {old} {row : ThreadGoalRow R} {start : Int64} (used : row.tokensUsed = .integer start)
      (within : row.WithinBudget reals) : Change threadId old (some row) (some (.installed threadId row.goalId start))
  | edited {old row : ThreadGoalRow R} (goalId : row.goalId = old.goalId) (used : row.tokensUsed = old.tokensUsed)
      (within : old.WithinBudget reals → row.WithinBudget reals) : Change threadId (some old) (some row) none
  | accounted {old row : ThreadGoalRow R} {tokenDelta : Int64} (goalId : row.goalId = old.goalId)
      (used : row.tokensUsed = old.tokensUsed.add reals (max tokenDelta 0)) (within : row.WithinBudget reals) :
      Change threadId (some old) (some row) (some (.accepted threadId row.goalId tokenDelta))
  | deleted {old} : Change threadId old none none

variable {threadId : T} {ev : Option (Event T)} {row : ThreadGoalRow R}

/-- The id a thread's goal has afterwards was there or came with the call. -/
theorem Change.goalId_cases {reals old new}
    (hchange : Change reals threadId old new ev) (hrow : new = some row) :
    (∃ before, old = some before ∧ before.goalId = row.goalId) ∨
      ∃ start, ev = some (.installed threadId row.goalId start) := by
  cases hchange with
  | kept => exact .inl ⟨row, hrow, rfl⟩
  | installed =>
    cases hrow
    exact .inr ⟨_, rfl⟩
  | edited hid =>
    cases hrow
    exact .inl ⟨_, rfl, hid.symm⟩
  | accounted hid =>
    cases hrow
    exact .inl ⟨_, rfl, hid.symm⟩
  | deleted => cases hrow

variable [DecidableEq T]

/-- What a call starts or accepts, as its statement answers. -/
def event (store : GoalStore T R) : Call T → Option (Event T)
  | .replaceSnapshot goal => some (.installed goal.threadId goal.goalId goal.tokensUsed)
  | .replace threadId new => (replaceStatement store threadId new).2.map fun row => .installed threadId row.goalId 0
  | .insert threadId new => (insertStatement store threadId new).2.map fun row => .installed threadId row.goalId 0
  | .account threadId usage nowMs => (accountStatement reals store threadId usage nowMs).2.map fun row =>
      .accepted threadId row.goalId usage.tokenDelta
  | .update .. | .pause .. | .usageLimit .. | .delete .. | .clearDeferral .. => none

def history (store : GoalStore T R) : List (Call T) → List (Event T)
  | [] => []
  | call :: calls => (event reals store call).toList ++ history (step reals store call) calls

/-- A goal's starting value and the deltas accepted for it. -/
structure Entry where
  goalId : Text
  start : Int64
  deltas : List Int64

def Entry.record (threadId : T) (entry : Option Entry) : Event T → Option Entry
  | .installed other goalId start => if other = threadId then some ⟨goalId, start, []⟩ else entry
  | .accepted other goalId tokenDelta =>
    if other = threadId then
      entry.map fun entry => if entry.goalId = goalId then { entry with deltas := entry.deltas ++ [tokenDelta] } else entry
    else entry

/-- The sum of the positive deltas. -/
def Entry.accepted (entry : Entry) : Int := ((entry.deltas.map Int64.toInt).filter (0 < ·)).sum

def entryOf (threadId : T) (events : List (Event T)) : Option Entry := events.foldl (Entry.record threadId) none

/-! ## One call -/

variable {reals}

theorem overBudget_eq_false {tokenBudget tokensUsed} : overBudget reals tokenBudget tokensUsed = false ↔
      ∀ budget, tokenBudget = some budget → tokensUsed.atLeast reals budget = false := by
  cases tokenBudget with
  | none => simp [overBudget]
  | some budget => simp [overBudget]

theorem withinBudget_iff :
    row.WithinBudget reals ↔ (row.status = .active → overBudget reals row.tokenBudget row.tokensUsed = false) := by
  rw [ThreadGoalRow.WithinBudget, overBudget_eq_false]

theorem eq_false_of_ite_active {status} {condition : Prop} [Decidable condition] {past : Bool}
    (h : (if condition ∧ past then .budgetLimited else status) = ThreadGoalStatus.active)
    (hcondition : status = .active → condition) : past = false := by
  split at h
  next => cases h
  next hnot =>
    rw [← Bool.not_eq_true]
    intro hover
    exact hnot ⟨hcondition h, hover⟩

theorem NewGoal.row_withinBudget (new : NewGoal) : (new.row (R := R)).WithinBudget reals := by
  rw [withinBudget_iff]
  intro hactive
  exact eq_false_of_ite_active hactive id

theorem GoalUpdate.set_withinBudget (update : GoalUpdate) (nowMs : Int64)
    (h : row.WithinBudget reals) : (update.set reals nowMs row).WithinBudget reals := by
  rw [withinBudget_iff] at h ⊢
  unfold GoalUpdate.set
  split
  · intro hactive
    dsimp only [setStatus] at hactive
    split at hactive
    next hlimited => rw [hlimited.1] at hactive; cases hactive
    next => exact eq_false_of_ite_active hactive id
  · intro hactive
    dsimp only [setStatus] at hactive
    split at hactive
    next hlimited => rw [hlimited.1] at hactive; cases hactive
    next => exact eq_false_of_ite_active hactive id
  · intro hactive
    exact eq_false_of_ite_active hactive id
  · exact h

theorem GoalUpdate.set_kept (update : GoalUpdate) (nowMs : Int64) (row : ThreadGoalRow R) :
    (update.set reals nowMs row).goalId = row.goalId ∧ (update.set reals nowMs row).tokensUsed = row.tokensUsed := by
  unfold GoalUpdate.set
  split <;> exact ⟨rfl, rfl⟩

theorem GoalAccountingMode.active_mem (mode : GoalAccountingMode) : .active ∈ mode.budgetLimitStatusFilter := by
  cases mode <;> decide

theorem Usage.set_withinBudget (usage : Usage) (nowMs : Int64) (row : ThreadGoalRow R) :
    (usage.set reals nowMs row).WithinBudget reals := by
  rw [withinBudget_iff]
  intro hactive
  refine eq_false_of_ite_active hactive ?_
  intro hstatus
  rw [hstatus]
  exact usage.mode.active_mem

/-! ### Statements -/

variable (store : GoalStore T R)

theorem GoalStore.put_goals (threadId other : T) (row : ThreadGoalRow R) :
    (store.put threadId row).goals other = if other = threadId then some row else store.goals other :=
  Function.update_apply ..

theorem change_put {store : GoalStore T R} {other : T}
    (h : Change reals threadId (store.goals threadId) (some row) ev) (hev : ∀ e ∈ ev, e.threadId = threadId) :
    Change reals other (store.goals other) ((store.put threadId row).goals other) ev := by
  rw [GoalStore.put_goals]
  split
  next heq =>
    rw [heq]
    exact h
  next hne =>
    refine .kept fun e he heq => hne ?_
    rw [← hev e he, heq]

theorem change_upsert (threadId other : T) (replaces : ThreadGoalRow R → Bool) (new : NewGoal) :
    Change reals other (store.goals other) ((store.upsert threadId replaces new.row).1.goals other)
      ((store.upsert threadId replaces new.row).2.map fun row => .installed threadId row.goalId 0) := by
  rw [GoalStore.upsert]
  split
  next =>
    refine change_put (.installed rfl new.row_withinBudget) fun e he => ?_
    cases he
    rfl
  next => exact .kept fun e he => by cases he

theorem update_cases (threadId : T) (matching : ThreadGoalRow R → Bool)
    (set : ThreadGoalRow R → ThreadGoalRow R) :
    (∃ row, store.goals threadId = some row ∧ matching row = true ∧
      store.update threadId matching set = (store.put threadId (set row), some (set row))) ∨
    store.update threadId matching set = (store, none) := by
  rw [GoalStore.update]
  cases hrow : (store.goals threadId).filter matching with
  | none => exact .inr rfl
  | some row =>
    obtain ⟨hgoal, hmatching⟩ := Option.filter_eq_some_iff.1 hrow
    exact .inl ⟨row, hgoal, hmatching, rfl⟩

theorem change_update (threadId other : T) (matching : ThreadGoalRow R → Bool)
    {set : ThreadGoalRow R → ThreadGoalRow R}
    (h : ∀ row, (set row).goalId = row.goalId ∧ (set row).tokensUsed = row.tokensUsed ∧
      (row.WithinBudget reals → (set row).WithinBudget reals)) :
    Change reals other (store.goals other) ((store.update threadId matching set).1.goals other) none := by
  rcases update_cases store threadId matching set with ⟨row, hrow, -, heq⟩ | heq
  · rw [heq]
    obtain ⟨hid, hused, hwithin⟩ := h row
    refine change_put ?_ fun e he => by cases he
    rw [hrow]
    exact .edited hid hused hwithin
  · rw [heq]
    exact .kept fun e he => by cases he

theorem change_account (threadId other : T) (usage : Usage) (nowMs : Int64) :
    Change reals other (store.goals other) ((accountStatement reals store threadId usage nowMs).1.goals other)
      ((accountStatement reals store threadId usage nowMs).2.map fun row =>
        .accepted threadId row.goalId usage.tokenDelta) := by
  rw [accountStatement]
  split
  next => exact .kept fun e he => by cases he
  next =>
    rcases update_cases store threadId _ (usage.set reals nowMs) with ⟨row, hrow, -, heq⟩ | heq
    · rw [heq]
      refine change_put ?_ fun e he => ?_
      · rw [hrow]
        exact .accounted rfl rfl (usage.set_withinBudget nowMs row)
      · cases he
        rfl
    · rw [heq]
      exact .kept fun e he => by cases he

theorem change_delete (threadId other : T) :
    Change reals other (store.goals other) ((deleteThreadGoal store threadId).1.goals other) none := by
  rw [deleteThreadGoal]
  split
  next => exact .kept fun e he => by cases he
  next row hrow =>
    show Change reals other _ (Function.update store.goals threadId none other) none
    rw [Function.update_apply]
    split
    next => exact .deleted
    next => exact .kept fun e he => by cases he

theorem change_updateActive {status} (hstatus : status ≠ .active) (store : GoalStore T R)
    (threadId other : T) (nowMs : Int64) :
    Change reals other (store.goals other) ((updateActiveThreadGoalStatus store threadId status nowMs).1.goals other) none := by
  have hchange : Change reals other (store.goals other) ((store.update threadId
      (fun row => row.status = .active ∨ status = .usageLimited ∧ row.status = .budgetLimited)
      (fun row => { row with status, updatedAtMs := nowMs })).1.goals other) none :=
    change_update store threadId other _ fun row => ⟨rfl, rfl, fun _ hactive => absurd hactive hstatus⟩
  rw [updateActiveThreadGoalStatus]
  split
  next heq => rw [heq] at hchange; exact hchange
  next heq => rw [heq] at hchange; exact hchange

theorem change_updateThreadGoal (threadId other : T) (update : GoalUpdate) (nowMs : Int64) :
    Change reals other (store.goals other) ((updateThreadGoal reals store threadId update nowMs).1.goals other) none := by
  have hchange : Change reals other (store.goals other)
      ((store.update threadId (expects update.expectedGoalId) (update.set reals nowMs)).1.goals other) none :=
    change_update store threadId other _ fun row =>
      ⟨(update.set_kept nowMs row).1, (update.set_kept nowMs row).2, update.set_withinBudget nowMs⟩
  rw [updateThreadGoal]
  split
  next => exact .kept fun e he => by cases he
  next =>
    split
    next heq => rw [heq] at hchange; exact hchange
    next heq => rw [heq] at hchange; exact hchange

theorem accountThreadGoalUsage_fst (threadId : T) (usage : Usage) (nowMs : Int64) :
    (accountThreadGoalUsage reals store threadId usage nowMs).1 = (accountStatement reals store threadId usage nowMs).1 := by
  rw [accountThreadGoalUsage]
  split
  next heq => rw [heq]
  next heq => rw [heq]

def Call.Lawful : Call T → Prop
  | .replaceSnapshot goal => goal.WithinBudget
  | _ => True

variable {call : Call T}

/-- **One call.** -/
theorem step_change (reals : Reals R) (h : call.Lawful) (store : GoalStore T R) (threadId : T) :
    Change reals threadId (store.goals threadId) ((step reals store call).goals threadId) (event reals store call) := by
  cases call with
  | replaceSnapshot goal =>
    refine change_put (.installed rfl ?_) fun e he => ?_
    · intro hactive budget hbudget
      exact decide_eq_false (Int64.not_le.2 (h hactive budget hbudget))
    · cases he
      rfl
  | replace other new => exact change_upsert store other threadId _ new
  | insert other new => exact change_upsert store other threadId _ new
  | update other update nowMs => exact change_updateThreadGoal store other threadId update nowMs
  | pause other nowMs => exact change_updateActive (by decide) store other threadId nowMs
  | usageLimit other nowMs => exact change_updateActive (by decide) store other threadId nowMs
  | account other usage nowMs =>
    show Change reals threadId _ ((accountThreadGoalUsage reals store other usage nowMs).1.goals threadId) _
    rw [accountThreadGoalUsage_fst]
    exact change_account store other threadId usage nowMs
  | delete other => exact change_delete store other threadId
  | clearDeferral other => exact .kept fun e he => by cases he

/-! ## Runs -/

/-- A thread's goal is within its budget and has used what its entry tells. -/
def Accounted (reals : Reals R) (goal : Option (ThreadGoalRow R)) (entry : Option Entry) : Prop :=
  ∀ row, goal = some row → row.WithinBudget reals ∧ ∃ e, entry = some e ∧ e.goalId = row.goalId ∧
    row.tokensUsed = (e.deltas.map (max · 0)).foldl (Number.add reals) (.integer e.start)

variable {entry : Option Entry}

theorem Entry.record_of_ne {e} (h : e.threadId ≠ threadId) : Entry.record threadId entry e = entry := by
  cases e <;> exact if_neg h

theorem Change.accounted_record {old new}
    (hchange : Change reals threadId old new ev) (h : Accounted reals old entry) :
    Accounted reals new (ev.toList.foldl (Entry.record threadId) entry) := by
  intro row hrow
  cases hchange with
  | kept helsewhere =>
    cases ev with
    | none => exact h row hrow
    | some e =>
      show _ ∧ ∃ recorded, Entry.record threadId entry e = some recorded ∧ _
      rw [Entry.record_of_ne (helsewhere e rfl)]
      exact h row hrow
  | installed hused hwithin =>
    cases hrow
    exact ⟨hwithin, _, if_pos rfl, rfl, hused⟩
  | edited hid hused hwithin =>
    cases hrow
    obtain ⟨hold, e, hentry, heid, hsum⟩ := h _ rfl
    exact ⟨hwithin hold, e, hentry, heid.trans hid.symm, hused.trans hsum⟩
  | @accounted _ _ tokenDelta hid hused hwithin =>
    cases hrow
    obtain ⟨-, e, hentry, heid, hsum⟩ := h _ rfl
    refine ⟨hwithin, { e with deltas := e.deltas ++ [tokenDelta] }, ?_, heid.trans hid.symm, ?_⟩
    · rw [hentry]
      show (if threadId = threadId then _ else _) = _
      rw [if_pos rfl, Option.map_some, if_pos (heid.trans hid.symm)]
    · rw [hused, hsum, List.map_append, List.foldl_append]
      rfl
  | deleted => cases hrow

variable {calls : List (Call T)}

theorem run_accounted (hlawful : ∀ call ∈ calls, call.Lawful) {store}
    (h : Accounted reals (store.goals threadId) entry) :
    Accounted reals ((run (step reals) store calls).goals threadId)
      ((history reals store calls).foldl (Entry.record threadId) entry) := by
  induction calls generalizing store entry with
  | nil => exact h
  | cons call calls ih =>
    obtain ⟨hcall, hcalls⟩ := List.forall_mem_cons.1 hlawful
    rw [history, List.foldl_append, run_cons]
    exact ih hcalls ((step_change reals hcall store threadId).accounted_record h)

theorem toInt_max_zero (n : Int64) : (max n 0).toInt = max n.toInt 0 := by
  show (if n ≤ 0 then 0 else n).toInt = _
  split
  next hle =>
    rw [Int64.le_iff_toInt_le, Int64.toInt_zero] at hle
    rw [max_eq_right hle, Int64.toInt_zero]
  next hgt =>
    rw [Int64.le_iff_toInt_le, Int64.toInt_zero] at hgt
    rw [max_eq_left (by omega)]

theorem Entry.sum_eq_accepted (entry : Entry) : ((entry.deltas.map (max · 0)).map Int64.toInt).sum = entry.accepted := by
  rw [Entry.accepted, List.map_map]
  induction entry.deltas with
  | nil => rfl
  | cons delta deltas ih =>
    rw [List.map_cons, List.map_cons, List.sum_cons, List.filter_cons, ih, Function.comp, toInt_max_zero]
    split
    next hpos => rw [List.sum_cons, max_eq_left (Int.le_of_lt (of_decide_eq_true hpos))]
    next hneg => rw [max_eq_right (Int.not_lt.1 fun hlt => hneg (decide_eq_true hlt)), Int.zero_add]

/-- **Tokens.** -/
theorem Accounted.tokens {goal} (h : Accounted reals goal entry) (hrow : goal = some row) :
    ∃ e, entry = some e ∧ e.goalId = row.goalId ∧ (e.start.toInt + e.accepted < 2 ^ 63 →
      ∃ n, row.tokensUsed = .integer n ∧ n.toInt = e.start.toInt + e.accepted) := by
  obtain ⟨-, e, hentry, hid, hused⟩ := h row hrow
  refine ⟨e, hentry, hid, ?_⟩
  intro hfit
  rw [← e.sum_eq_accepted] at hfit ⊢
  have hpos : ∀ delta ∈ e.deltas.map (max · 0), 0 ≤ delta.toInt := by
    intro delta hdelta
    obtain ⟨d, -, rfl⟩ := List.mem_map.1 hdelta
    rw [toInt_max_zero]
    exact le_max_right ..
  obtain ⟨n, hsum, hn⟩ := sum_eq_integer reals hpos hfit
  exact ⟨n, hused.trans hsum, hn⟩

/-! ## Goals that are gone -/

/-- The thread's goal, if it has one, is another. -/
def Absent (goalId : Text) (goal : Option (ThreadGoalRow R)) : Prop := ∀ row, goal = some row → row.goalId ≠ goalId

/-- The id a call makes up. -/
def Call.freshId : Call T → Option Text
  | .replace _ new | .insert _ new => some new.goalId
  | _ => none

def Call.goalId : Call T → Option Text
  | .replaceSnapshot goal => some goal.goalId
  | .replace _ new | .insert _ new => some new.goalId
  | _ => none

/-- `Uuid::new_v4` makes up no id that was there before. -/
def FreshIds (calls : List (Call T)) : Prop :=
  calls.Pairwise fun earlier later => ∀ id ∈ later.freshId, earlier.goalId ≠ some id

def Call.Restores (threadId : T) (goalId : Text) : Call T → Prop
  | .replaceSnapshot goal => goal.threadId = threadId ∧ goal.goalId = goalId
  | _ => False

/-- A call whose `expected_goal_id` names the goal. -/
def Call.Expects (threadId : T) (goalId : Text) : Call T → Prop
  | .update other changes _ => other = threadId ∧ changes.expectedGoalId = some goalId
  | .account other usage _ => other = threadId ∧ usage.expectedGoalId = some goalId
  | _ => False

variable {goalId : Text}

theorem update_of_absent {store : GoalStore T R} (h : Absent goalId (store.goals threadId))
    {matching : ThreadGoalRow R → Bool} (hmatching : ∀ row, matching row = true → expects (some goalId) row = true)
    (set : ThreadGoalRow R → ThreadGoalRow R) : store.update threadId matching set = (store, none) := by
  rcases update_cases store threadId matching set with ⟨row, hrow, hmatch, -⟩ | heq
  · have hid : goalId = row.goalId := of_decide_eq_true (hmatching row hmatch)
    exact absurd hid.symm (h row hrow)
  · exact heq

/-- **A call for a goal that is not there** changes nothing. -/
theorem step_of_absent {store : GoalStore T R}
    (hexpects : call.Expects threadId goalId) (h : Absent goalId (store.goals threadId)) : step reals store call = store := by
  cases call with
  | update other update nowMs =>
    obtain ⟨rfl, hid⟩ := hexpects
    show (updateThreadGoal reals store other update nowMs).1 = store
    rw [updateThreadGoal, hid, update_of_absent h fun _ => id]
    split <;> rfl
  | account other usage nowMs =>
    obtain ⟨rfl, hid⟩ := hexpects
    show (accountThreadGoalUsage reals store other usage nowMs).1 = store
    rw [accountThreadGoalUsage_fst, accountStatement]
    split
    next => rfl
    next =>
      rw [hid, update_of_absent h]
      intro row hmatch
      exact (of_decide_eq_true hmatch).2
  | _ => exact hexpects.elim

theorem goalId_of_upsert {store : GoalStore T R} {other : T} {replaces : ThreadGoalRow R → Bool} {new : NewGoal}
    {start : Int64}
    (h : ((store.upsert other replaces new.row).2.map fun row => Event.installed other row.goalId 0) =
      some (.installed threadId goalId start)) : new.goalId = goalId := by
  rw [GoalStore.upsert] at h
  split at h
  next =>
    cases h
    rfl
  next => cases h

theorem goalId_of_event {store : GoalStore T R} {start : Int64}
    (h : event reals store call = some (.installed threadId goalId start)) :
    call.goalId = some goalId ∧ (call.freshId = some goalId ∨ call.Restores threadId goalId) := by
  cases call with
  | replaceSnapshot goal =>
    cases h
    exact ⟨rfl, .inr ⟨rfl, rfl⟩⟩
  | replace other new =>
    have hid := goalId_of_upsert h
    exact ⟨congrArg some hid, .inl (congrArg some hid)⟩
  | insert other new =>
    have hid := goalId_of_upsert h
    exact ⟨congrArg some hid, .inl (congrArg some hid)⟩
  | account other usage nowMs =>
    obtain ⟨row, hrow, heq⟩ := Option.map_eq_some_iff.1 h
    cases heq
  | _ => cases h

theorem run_goalId (hlawful : ∀ call ∈ calls, call.Lawful)
    (hrow : (run (step reals) .empty calls).goals threadId = some row) : ∃ call ∈ calls, call.goalId = some row.goalId := by
  induction calls using List.reverseRecOn generalizing row with
  | nil => cases hrow
  | append_singleton calls call ih =>
    rw [run_concat] at hrow
    have hchange := step_change reals (hlawful call (by simp)) (run (step reals) .empty calls) threadId
    rcases hchange.goalId_cases hrow with ⟨before, hbefore, hid⟩ | ⟨start, hevent⟩
    · obtain ⟨earlier, hmem, hearlier⟩ := ih (fun c hc => hlawful c (List.mem_append_left _ hc)) hbefore
      exact ⟨earlier, List.mem_append_left _ hmem, hearlier.trans (congrArg some hid)⟩
    · exact ⟨call, by simp, (goalId_of_event hevent).1⟩

/-- A goal stays gone as long as no call brings its id. -/
theorem run_absent (hlawful : ∀ call ∈ calls, call.Lawful)
    (hnew : ∀ call ∈ calls, call.freshId ≠ some goalId ∧ ¬ call.Restores threadId goalId) {store}
    (h : Absent goalId (store.goals threadId)) : Absent goalId ((run (step reals) store calls).goals threadId) := by
  induction calls generalizing store with
  | nil => exact h
  | cons call calls ih =>
    obtain ⟨hcall, hcalls⟩ := List.forall_mem_cons.1 hlawful
    obtain ⟨⟨hfresh, hrestores⟩, hrest⟩ := List.forall_mem_cons.1 hnew
    refine ih hcalls hrest ?_
    intro row hrow hid
    rcases (step_change reals hcall store threadId).goalId_cases hrow with ⟨before, hbefore, heq⟩ | ⟨start, hevent⟩
    · exact h before hbefore (heq.trans hid)
    · rw [hid] at hevent
      exact (goalId_of_event hevent).2.elim hfresh hrestores

/-! ## What every run keeps -/

structure Kept (reals : Reals R) (calls : List (Call T)) (threadId : T) : Prop where
  withinBudget : ∀ row, (run (step reals) .empty calls).goals threadId = some row → row.WithinBudget reals
  /-- A sum that 64 bits hold. -/
  tokens : ∀ row, (run (step reals) .empty calls).goals threadId = some row →
    ∃ entry, entryOf threadId (history reals .empty calls) = some entry ∧ entry.goalId = row.goalId ∧
      (entry.start.toInt + entry.accepted < 2 ^ 63 →
        ∃ n, row.tokensUsed = .integer n ∧ n.toInt = entry.start.toInt + entry.accepted)
  /-- Once replaced or deleted, unless a snapshot has it again. -/
  gone : ∀ before call after row, calls = before ++ call :: after →
    (run (step reals) .empty before).goals threadId = some row →
    Absent row.goalId ((run (step reals) .empty (before ++ [call])).goals threadId) →
    (∀ later ∈ after, ¬ later.Restores threadId row.goalId) →
    ∀ naming : Call T, naming.Expects threadId row.goalId →
      step reals (run (step reals) .empty calls) naming = run (step reals) .empty calls

theorem goals_kept (reals : Reals R) {calls : List (Call T)} (hlawful : ∀ call ∈ calls, call.Lawful) (hfresh : FreshIds calls)
    (threadId : T) : Kept reals calls threadId := by
  have haccounted : Accounted reals ((run (step reals) .empty calls).goals threadId)
      (entryOf threadId (history reals .empty calls)) :=
    run_accounted hlawful fun row hrow => by cases hrow
  refine ⟨fun row hrow => (haccounted row hrow).1, fun row hrow => haccounted.tokens hrow, ?_⟩
  intro before call after row hcalls hrow habsent hrestores naming hnaming
  refine step_of_absent hnaming ?_
  subst hcalls
  obtain ⟨earlier, hmem, hid⟩ := run_goalId (fun c hc => hlawful c (List.mem_append_left _ hc)) hrow
  rw [List.append_cons, run_append]
  refine run_absent (fun c hc => hlawful c (by simp [hc])) ?_ habsent
  intro later hlater
  refine ⟨?_, hrestores later hlater⟩
  intro hsame
  have hpairs := (List.pairwise_append.1 hfresh).2.2 earlier hmem later (List.mem_cons_of_mem _ hlater)
  exact hpairs _ hsame hid

/-- A new active goal of a thread. -/
def startCall (goalId : Text) (tokenBudget : Option Int64) : Call Text :=
  .replace "t".toList { objective := "ship".toList, status := .active, tokenBudget, goalId, nowMs := 1700000000000 }

/-- Tokens used for a goal of the thread. -/
def accountCall (goalId : Text) (tokenDelta : Int64) : Call Text :=
  .account "t".toList { timeDeltaSeconds := 0, tokenDelta, mode := .activeOnly, expectedGoalId := some goalId } 1700000000000

/-- A goal goes over its budget and is replaced; a late report still names it. -/
def replacedRun : List (Call Text) :=
  [startCall ['a'] (some 10), accountCall ['a'] 7, accountCall ['a'] 5, startCall ['b'] none, accountCall ['a'] 3]

theorem goals_kept_replacedRun : Kept doubles replacedRun "t".toList := by
  refine goals_kept doubles ?_ ?_ "t".toList
  · simp [replacedRun, startCall, accountCall, Call.Lawful]
  · unfold FreshIds
    decide

/-- Two reports that 64 bits hold, but not their sum. -/
def overflowRun : List (Call Text) :=
  [startCall ['a'] none, accountCall ['a'] Int64.maxValue, accountCall ['a'] Int64.maxValue]

theorem overflowRun_tokens :
    ((run (step doubles) .empty overflowRun).goals "t".toList).map ThreadGoalRow.tokensUsed = some (.real (2 ^ 64)) ∧
      (entryOf "t".toList (history doubles .empty overflowRun)).map (fun e => e.start.toInt + e.accepted) =
        some (2 ^ 64 - 2) := by
  decide

end Codex.Goals
