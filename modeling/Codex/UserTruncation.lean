/-
Cutting a rollout before its nth user message (`core/src/thread_rollout_truncation.rs`).
The scan for user messages takes as many of them off at a rollback marker as the marker
has turns, while the replay takes off turns of every kind
(`ContextManager::drop_last_n_user_turns`), those that agents begin among them.
-/
import Codex.ForkTurns
import Codex.Lib.MarkedStack

namespace Codex

open MarkedStack

/-! ## The scan and the cut -/

section
variable (E : Externals)

/-- The local variables of `user_message_positions_in_rollout`, with the index of the loop. -/
structure UserScan where
  idx : Nat := 0
  userPositions : List Nat := []

namespace UserScan

/-- The body of the loop. -/
def visit (s : UserScan) : RolloutItem → List Nat
  | .responseItem item => if isRealUserMessageBoundary E item then s.userPositions ++ [s.idx] else s.userPositions
  | .eventMsg (.threadRolledBack numTurns) => s.userPositions.take (s.userPositions.length - numTurns.toNat)
  | _ => s.userPositions

def step (s : UserScan) (item : RolloutItem) : UserScan := { idx := s.idx + 1, userPositions := s.visit E item }

def run (s : UserScan) (items : List RolloutItem) : UserScan := items.foldl (step E) s

end UserScan

def userMessagePositionsInRollout (items : List RolloutItem) : List Nat := (({} : UserScan).run E items).userPositions

def truncateRolloutBeforeNthUserMessageFromStart (items : List RolloutItem) (nFromStart : Nat) : List RolloutItem :=
  if nFromStart = usizeMax then items
  else match (userMessagePositionsInRollout E items)[nFromStart]? with
  | none => items
  | some cutIdx => items.take cutIdx

/-- The replay of the cut is what the replay has before its nth user message. -/
def CutsBeforeNth (items : List RolloutItem) (n : Nat) : Prop :=
  (({} : ForwardReplay).run E (truncateRolloutBeforeNthUserMessageFromStart E items n)).history.items =
    MarkedList.before (isRealUserMessageBoundary E) n (({} : ForwardReplay).run E items).history.items

/-! ## What the replay keeps -/

/-- A turn of the replay: the index of its record, and the item that begins it. -/
abbrev ReplayedTurn := Nat × ResponseItem

/-- What the record at the index does to the turns of the replay. -/
def turnOps (idx : Nat) (item : RolloutItem) : List (StackOp ReplayedTurn) :=
  match item with
  | .eventMsg (.threadRolledBack numTurns) => [.pop numTurns.toNat]
  | item => ((modelItems [item]).filter (isUserTurnBoundary E)).map fun turn => .push (idx, turn)

def turnOpsFrom (idx : Nat) : List RolloutItem → List (StackOp ReplayedTurn)
  | [] => []
  | item :: items => turnOps E idx item ++ turnOpsFrom (idx + 1) items

def ReplayedTurn.isUserMessage (turn : ReplayedTurn) : Bool := isRealUserMessageBoundary E turn.2

def replayedUserMessages (items : List RolloutItem) : List ReplayedTurn :=
  (MarkedStack.run (turnOpsFrom E 0 items)).filter (ReplayedTurn.isUserMessage E)

def rolledBackTurns (items : List RolloutItem) : Nat :=
  (items.map fun item => match item with
    | .eventMsg (.threadRolledBack numTurns) => numTurns.toNat
    | _ => 0).sum

def RolloutItem.isUserMessage : RolloutItem → Bool
  | .responseItem item => isRealUserMessageBoundary E item
  | _ => false

/-- At no point do the markers count more turns than there are user messages. -/
def Unreached (items : List RolloutItem) : Prop :=
  ∀ j, rolledBackTurns (items.take j) ≤ (items.take j).countP (RolloutItem.isUserMessage E)

end

variable {E : Externals}

theorem turnOpsFrom_append (idx : Nat) (items extra : List RolloutItem) :
    turnOpsFrom E idx (items ++ extra) = turnOpsFrom E idx items ++ turnOpsFrom E (idx + items.length) extra := by
  induction items generalizing idx with
  | nil => rfl
  | cons item items ih =>
    rw [List.cons_append, turnOpsFrom, turnOpsFrom, ih, List.append_assoc, List.length_cons,
      show idx + 1 + items.length = idx + (items.length + 1) by omega]

theorem stack_append (ops more : List (StackOp ReplayedTurn)) :
    MarkedStack.run (ops ++ more) = more.foldl MarkedStack.step (MarkedStack.run ops) := List.foldl_append

theorem run_turnOps_append_singleton (items : List RolloutItem) (item : RolloutItem) :
    MarkedStack.run (turnOpsFrom E 0 (items ++ [item])) =
      (turnOps E items.length item).foldl MarkedStack.step (MarkedStack.run (turnOpsFrom E 0 items)) := by
  rw [turnOpsFrom_append, stack_append]
  show (turnOps E (0 + items.length) item ++ []).foldl _ _ = _
  rw [List.append_nil, Nat.zero_add]

theorem runMarked_turnOps_append_singleton (mark : ReplayedTurn → Bool) (items : List RolloutItem) (item : RolloutItem) :
    runMarked mark (turnOpsFrom E 0 (items ++ [item])) =
      (turnOps E items.length item).foldl (markedStep mark) (runMarked mark (turnOpsFrom E 0 items)) := by
  rw [turnOpsFrom_append, runMarked, List.foldl_append]
  show (turnOps E (0 + items.length) item ++ []).foldl _ _ = _
  rw [List.append_nil, Nat.zero_add]
  rfl

/-- What a record does to the replay and to the scan. -/
inductive TurnEffect (E : Externals) (idx : Nat) (item : RolloutItem) : Prop
  | marker (numTurns : UInt32) (hitem : item = .rollback numTurns)
  | turn (y : ResponseItem) (hy : isUserTurnBoundary E y = true) (hops : turnOps E idx item = [.push (idx, y)])
      (hmodel : modelItems [item] = [y]) (hadd : ∀ history, replayItem E history item = history ++ [y])
      (huser : item.isUserMessage E = isRealUserMessageBoundary E y) (hrolled : rolledBackTurns [item] = 0)
  | quiet (added : List ResponseItem) (hops : turnOps E idx item = [])
      (hadd : ∀ history, replayItem E history item = history ++ added)
      (hcount : added.countP (isUserTurnBoundary E) = 0) (huser : item.isUserMessage E = false)
      (hrolled : rolledBackTurns [item] = 0)

theorem isUserTurnBoundary_of_real {item} (h : isRealUserMessageBoundary E item = true) :
    isUserTurnBoundary E item = true :=
  (isUserTurnBoundary_of_fork (by rw [h, Bool.true_or])).1

theorem turnEffect_responseItem (idx : Nat) (item : ResponseItem) : TurnEffect E idx (.responseItem item) := by
  have hops : turnOps E idx (.responseItem item) =
      ([item].filter (isUserTurnBoundary E)).map fun turn => .push (idx, turn) := rfl
  have hreplay (history : List ResponseItem) :
      replayItem E history (.responseItem item) = history ++ recordedItems E [item] := rfl
  cases hb : isUserTurnBoundary E item with
  | true =>
    obtain ⟨hapi, hself⟩ := isApiMessage_of_boundary hb
    refine .turn item hb ?_ rfl (fun history => ?_) rfl rfl
    · rw [hops, List.filter_cons_of_pos hb]
      rfl
    · rw [hreplay]
      simp [recordedItems, hapi, hself]
  | false =>
    refine .quiet (recordedItems E [item]) ?_ hreplay (recordedItems_countP [item] (by simp [hb])) ?_ rfl
    · rw [hops, List.filter_cons_of_neg (ne_true_of_eq_false hb)]
      rfl
    · by_contra hreal
      rw [isUserTurnBoundary_of_real (eq_true_of_ne_false hreal)] at hb
      cases hb

variable {item : RolloutItem} {items : List RolloutItem} {turns : List ReplayedTurn} {message : ReplayedTurn}
  {s : UserScan} {p : Nat}

theorem turnEffect (hcompact : item.isCompacted = false) (idx : Nat) : TurnEffect E idx item := by
  cases item with
  | responseItem item => exact turnEffect_responseItem idx item
  | interAgentCommunication c =>
    exact .turn c.toModelInputItem rfl rfl rfl (fun history => ForkScan.replayItems_boundary rfl history) rfl rfl
  | compacted c => cases hcompact
  | eventMsg event =>
    cases event with
    | threadRolledBack numTurns => exact .marker numTurns rfl
    | _ => exact .quiet [] rfl (fun history => rfl) rfl rfl rfl
  | _ => exact .quiet [] rfl (fun history => rfl) rfl rfl rfl

/-! ## The turns of the replay -/

theorem replayItems_append_singleton (history : List ResponseItem) (items : List RolloutItem) (item : RolloutItem) :
    replayItems E history (items ++ [item]) = replayItem E (replayItems E history items) item := by
  rw [replayItems_append]
  rfl

theorem filter_replayItems (hcompact : ∀ item ∈ items, item.isCompacted = false) :
    (replayItems E [] items).filter (isUserTurnBoundary E) = (MarkedStack.run (turnOpsFrom E 0 items)).map Prod.snd := by
  induction items using List.reverseRecOn with
  | nil => rfl
  | append_singleton items item ih =>
    have ih := ih fun i hi => hcompact i (List.mem_append_left _ hi)
    rw [replayItems_append_singleton, run_turnOps_append_singleton]
    cases turnEffect (E := E) (hcompact item (by simp)) items.length with
    | marker numTurns hitem =>
      subst hitem
      show (MarkedList.dropMarks _ _ _ _).filter _ = (MarkedStack.popped _ _).map _
      rw [MarkedList.filter_dropMarks (not_isContextUpdate_of_boundary E), ih, popped, List.map_take,
        List.countP_eq_length_filter, ih, List.length_map]
    | turn y hy hops hmodel hadd =>
      rw [hadd, hops, List.filter_append, ih, List.filter_cons_of_pos hy]
      show _ = ((MarkedStack.run _) ++ [_]).map _
      rw [List.map_append]
      rfl
    | quiet added hops hadd hcount =>
      rw [hadd, hops, List.filter_append, ih, List.filter_eq_nil_iff.2 fun x hx => ?_, List.append_nil]
      · rfl
      · exact List.countP_eq_zero.1 hcount x hx

/-- The turns of the replay of `items`, in their order, each the start of what is replayed from its record on. -/
structure Replayed (E : Externals) (items : List RolloutItem) (turns : List ReplayedTurn) : Prop where
  ascending : (turns.map Prod.fst).Pairwise (· < ·)
  bounded : ∀ p ∈ turns.map Prod.fst, p < items.length
  kept : ∀ p ∈ turns.map Prod.fst, KeptTurn E items (turns.map Prod.fst) p

theorem Replayed.quiet (h : Replayed E items turns) {added}
    (hadd : ∀ history, replayItem E history item = history ++ added)
    (hcount : added.countP (isUserTurnBoundary E) = 0) : Replayed E (items ++ [item]) turns where
  ascending := h.ascending
  bounded p hp := by
    rw [List.length_append]
    exact Nat.lt_add_right _ (h.bounded p hp)
  kept p hp := by
    rw [← List.append_nil (turns.map Prod.fst)]
    exact (h.kept p hp).append (h.bounded p hp) hadd hcount

theorem Replayed.turn (h : Replayed E items turns) {y} (hy : isUserTurnBoundary E y = true)
    (hadd : ∀ history, replayItem E history item = history ++ [y]) (hmodel : modelItems [item] = [y]) :
    Replayed E (items ++ [item]) (turns ++ [(items.length, y)]) := by
  have hmap : (turns ++ [(items.length, y)]).map Prod.fst = turns.map Prod.fst ++ [items.length] := List.map_append
  refine ⟨?_, ?_, ?_⟩
  · rw [hmap, List.pairwise_append]
    refine ⟨h.ascending, List.pairwise_singleton .., fun p hp q hq => ?_⟩
    rw [List.mem_singleton.1 hq]
    exact h.bounded p hp
  · intro p hp
    rw [List.length_append, List.length_singleton]
    rcases List.mem_append.1 (hmap ▸ hp) with hp | hp
    · exact Nat.lt_succ_of_lt (h.bounded p hp)
    · rw [List.mem_singleton.1 hp]
      exact Nat.lt_succ_self _
  · intro p hp
    rw [hmap]
    rcases List.mem_append.1 (hmap ▸ hp) with hp | hp
    · exact (h.kept p hp).append (h.bounded p hp) hadd (by rw [List.countP_cons_of_pos hy]; rfl)
    · rw [List.mem_singleton.1 hp]
      refine ⟨turns.map Prod.fst, [], y, [], rfl, ?_, ?_, ?_, hy, by rw [List.countP_cons_of_pos hy]; rfl⟩
      · rw [List.take_left, replayItems_append_singleton, hadd]
      · rw [List.drop_left]
        exact hadd []
      · rw [List.drop_left, hmodel]
        rfl

theorem Replayed.rollBack (h : Replayed E items turns)
    (numTurns : UInt32) : Replayed E (items ++ [.rollback numTurns]) (popped turns numTurns.toNat) := by
  by_cases h0 : numTurns.toNat = 0
  · have hadd (history : List ResponseItem) : replayItem E history (.rollback numTurns) = history ++ [] := by
      show MarkedList.dropMarks _ _ numTurns.toNat history = _
      simp [MarkedList.dropMarks, h0]
    rw [h0, popped, Nat.sub_zero, List.take_length]
    exact h.quiet hadd rfl
  · have hmap : (popped turns numTurns.toNat).map Prod.fst =
        (turns.map Prod.fst).take ((turns.map Prod.fst).length - numTurns.toNat) := by
      rw [popped, List.map_take, List.length_map]
    refine ⟨?_, fun p hp => ?_, fun p hp => ?_⟩
    · rw [hmap]
      exact h.ascending.sublist (List.take_sublist ..)
    · rw [List.length_append]
      exact Nat.lt_add_right _ (h.bounded p (List.mem_of_mem_take (hmap ▸ hp)))
    · rw [hmap] at hp ⊢
      obtain ⟨i, hi, rfl⟩ := List.mem_take_iff_getElem.1 hp
      have hn : numTurns.toNat ≤ (turns.map Prod.fst).length := by omega
      have hstart : nthFromEnd (turns.map Prod.fst) numTurns.toNat =
          some (turns.map Prod.fst)[(turns.map Prod.fst).length - numTurns.toNat] := by
        rw [nthFromEnd, if_pos hn, List.getElem?_eq_getElem (by omega)]
      have hmem := List.getElem_mem (l := turns.map Prod.fst) (n := i) (by omega)
      refine (h.kept _ hmem).rollBack (h.bounded _ hmem) h.ascending hstart ?_
      exact List.pairwise_iff_getElem.1 h.ascending _ _ _ _ (by omega)

theorem replayed (hcompact : ∀ item ∈ items, item.isCompacted = false) :
    Replayed E items (MarkedStack.run (turnOpsFrom E 0 items)) := by
  induction items using List.reverseRecOn with
  | nil => exact ⟨.nil, nofun, nofun⟩
  | append_singleton items item ih =>
    have ih := ih fun i hi => hcompact i (List.mem_append_left _ hi)
    rw [run_turnOps_append_singleton]
    cases turnEffect (E := E) (hcompact item (by simp)) items.length with
    | marker numTurns hitem =>
      subst hitem
      exact ih.rollBack numTurns
    | turn y hy hops hmodel hadd =>
      rw [hops]
      exact ih.turn hy hadd hmodel
    | quiet added hops hadd hcount =>
      rw [hops]
      exact ih.quiet hadd hcount

theorem countP_real_filter (history : List ResponseItem) :
    (history.filter (isUserTurnBoundary E)).countP (isRealUserMessageBoundary E) =
      history.countP (isRealUserMessageBoundary E) := by
  rw [List.countP_filter]
  refine List.countP_congr fun item _ => ?_
  rw [Bool.and_eq_true]
  exact ⟨And.left, fun h => ⟨h, isUserTurnBoundary_of_real h⟩⟩

theorem countP_real_replay (hcompact : ∀ item ∈ items, item.isCompacted = false) :
    (replayItems E [] items).countP (isRealUserMessageBoundary E) = (replayedUserMessages E items).length := by
  rw [← countP_real_filter, filter_replayItems hcompact, List.countP_map, replayedUserMessages,
    ← List.countP_eq_length_filter]
  rfl

theorem replayItems_take (hcompact : ∀ item ∈ items, item.isCompacted = false)
    {n : Nat} (hmessage : (replayedUserMessages E items)[n]? = some message) :
    replayItems E [] (items.take message.1) =
        MarkedList.before (isRealUserMessageBoundary E) n (replayItems E [] items) ∧
      (replayItems E [] (items.take message.1)).countP (isRealUserMessageBoundary E) = n := by
  have hr := replayed (E := E) hcompact
  have hfilter := filter_replayItems (E := E) hcompact
  obtain ⟨before, after, hsplit, hn, hreal⟩ := MarkedList.exists_split_of_filter hmessage
  rw [hsplit] at hr hfilter
  have hmap : (before ++ message :: after).map Prod.fst = before.map Prod.fst ++ message.1 :: after.map Prod.fst := by
    rw [List.map_append, List.map_cons]
  obtain ⟨before', after', y, ys, hpos, hall, -, -, hy, hcount⟩ := hr.kept message.1 (by rw [hmap]; simp)
  -- The positions are distinct, so the message stands in the list of them where it does among the turns.
  have hlen : after'.length = after.length := by
    have hnodup := hr.ascending.imp fun hlt => Nat.ne_of_lt hlt
    rw [hmap, List.pairwise_middle (fun h => Ne.symm h), List.pairwise_cons] at hnodup
    have hne (p : Nat) (hp : p ∈ before.map Prod.fst ++ after.map Prod.fst) : p ≠ message.1 := (hnodup.1 p hp).symm
    obtain ⟨-, -, hafter⟩ := (List.append_cons_inj_of_notMem
      (fun hmem => hne _ (List.mem_append_left _ hmem) rfl) fun hmem => hne _ (List.mem_append_right _ hmem) rfl).1
      (hmap.symm.trans hpos)
    rw [← hafter, List.length_map]
  have hparts : (replayItems E [] (items.take message.1)).filter (isUserTurnBoundary E) = before.map Prod.snd ∧
      y = message.2 := by
    rw [hall, List.filter_append, List.map_append] at hfilter
    obtain ⟨hpre, hpost⟩ := List.append_inj' hfilter (by
      rw [← List.countP_eq_length_filter, hcount, List.length_map, List.length_cons, hlen])
    rw [List.filter_cons_of_pos hy, List.map_cons, List.cons.injEq] at hpost
    exact ⟨hpre, hpost.1⟩
  obtain ⟨hpre, rfl⟩ := hparts
  have htake : (replayItems E [] (items.take message.1)).countP (isRealUserMessageBoundary E) = n := by
    rw [← countP_real_filter, hpre, List.countP_map]
    exact hn
  have hreal : isRealUserMessageBoundary E message.2 = true := hreal
  refine ⟨?_, htake⟩
  rw [hall, MarkedList.before_append, htake, if_neg (Nat.lt_irrefl n), Nat.sub_self,
    MarkedList.before_zero_mark hreal, List.append_nil]

/-! ## The scan -/

namespace UserScan

theorem run_append (s : UserScan) (items extra : List RolloutItem) :
    s.run E (items ++ extra) = (s.run E items).run E extra := List.foldl_append

theorem run_idx (s : UserScan) (items : List RolloutItem) : (s.run E items).idx = s.idx + items.length := by
  induction items generalizing s with
  | nil => rfl
  | cons item items ih =>
    show ((s.step E item).run E items).idx = _
    rw [ih, List.length_cons, show (s.step E item).idx = s.idx + 1 from rfl]
    omega

theorem visit_of_not_marker (hrolled : rolledBackTurns [item] = 0) :
    s.visit E item = if item.isUserMessage E then s.userPositions ++ [s.idx] else s.userPositions := by
  cases item with
  | eventMsg event =>
    cases event with
    | threadRolledBack numTurns =>
      have h0 : numTurns.toNat = 0 := hrolled
      show s.userPositions.take (s.userPositions.length - numTurns.toNat) = s.userPositions
      rw [h0, Nat.sub_zero, List.take_length]
    | _ => rfl
  | _ => rfl

theorem marker_of_rolledBack (h : rolledBackTurns [item] ≠ 0) : ∃ numTurns, item = .rollback numTurns := by
  cases item with
  | eventMsg event =>
    cases event with
    | threadRolledBack numTurns => exact ⟨numTurns, rfl⟩
    | _ => exact absurd rfl h
  | _ => exact absurd rfl h

theorem rolledBackTurns_cons (item : RolloutItem) (items : List RolloutItem) :
    rolledBackTurns (item :: items) = rolledBackTurns [item] + rolledBackTurns items := by
  simp [rolledBackTurns]

theorem mem_step (h : p ∈ (s.step E item).userPositions) : p ∈ s.userPositions ∨ p = s.idx := by
  replace h : p ∈ s.visit E item := h
  by_cases hrolled : rolledBackTurns [item] = 0
  · rw [visit_of_not_marker hrolled] at h
    split at h
    · exact (List.mem_append.1 h).imp_right List.mem_singleton.1
    · exact .inl h
  · obtain ⟨numTurns, rfl⟩ := marker_of_rolledBack hrolled
    exact .inl (List.mem_of_mem_take h)

/-- A position that was taken off does not come back. -/
theorem not_mem_run (hp : p < s.idx) (h : p ∉ s.userPositions) (items : List RolloutItem) :
    p ∉ (s.run E items).userPositions := by
  induction items generalizing s with
  | nil => exact h
  | cons item items ih =>
    refine ih (s := s.step E item) (Nat.lt_succ_of_lt hp) fun hmem => ?_
    rcases mem_step hmem with hmem | rfl
    · exact h hmem
    · exact Nat.lt_irrefl _ hp

theorem forall_take_cons (item : RolloutItem) (items : List RolloutItem) (n : Nat) :
    (∀ j, rolledBackTurns ((item :: items).take j) ≤
        n + ((item :: items).take j).countP (RolloutItem.isUserMessage E)) ↔
      ∀ j, rolledBackTurns [item] + rolledBackTurns (items.take j) ≤
        n + ([item].countP (RolloutItem.isUserMessage E) + (items.take j).countP (RolloutItem.isUserMessage E)) := by
  have hsucc (j : Nat) : rolledBackTurns ((item :: items).take (j + 1)) ≤
        n + ((item :: items).take (j + 1)).countP (RolloutItem.isUserMessage E) ↔
      rolledBackTurns [item] + rolledBackTurns (items.take j) ≤
        n + ([item].countP (RolloutItem.isUserMessage E) + (items.take j).countP (RolloutItem.isUserMessage E)) := by
    rw [List.take_succ_cons, rolledBackTurns_cons, ← List.countP_append, List.singleton_append]
  constructor
  · intro h j
    exact (hsucc j).1 (h (j + 1))
  · intro h j
    cases j with
    | zero => exact Nat.zero_le _
    | succ j => exact (hsucc j).2 (h j)

/-- **What the scan keeps**: a position with `extra` after it, while the markers do not count past it. -/
theorem mem_run_iff {xs extra} (hs : s.userPositions = xs ++ p :: extra)
    (hxs : p ∉ xs) (hp : p < s.idx) (items : List RolloutItem) :
    p ∈ (s.run E items).userPositions ↔
      ∀ j, rolledBackTurns (items.take j) ≤ extra.length + (items.take j).countP (RolloutItem.isUserMessage E) := by
  induction items generalizing s extra with
  | nil =>
    refine iff_of_true ?_ fun j => ?_
    · show p ∈ s.userPositions
      simp [hs]
    · rw [List.take_nil]
      exact Nat.zero_le _
  | cons item items ih =>
    rw [forall_take_cons]
    show p ∈ ((s.step E item).run E items).userPositions ↔ _
    by_cases hrolled : rolledBackTurns [item] = 0
    · have hstep : (s.step E item).userPositions =
          xs ++ p :: (extra ++ if item.isUserMessage E then [s.idx] else []) := by
        show s.visit E item = _
        rw [visit_of_not_marker hrolled, hs]
        split <;> simp
      rw [ih hstep (Nat.lt_succ_of_lt hp), hrolled]
      refine forall_congr' fun j => ?_
      cases hitem : item.isUserMessage E with
      | true => simp [hitem, Nat.add_assoc]
      | false => simp [hitem]
    · obtain ⟨numTurns, rfl⟩ := marker_of_rolledBack hrolled
      have hcount : [RolloutItem.rollback numTurns].countP (RolloutItem.isUserMessage E) = 0 := rfl
      have hturns : rolledBackTurns [RolloutItem.rollback numTurns] = numTurns.toNat := rfl
      have htaken : (s.step E (.rollback numTurns)).userPositions =
          (xs ++ p :: extra).take (xs.length + (extra.length + 1) - numTurns.toNat) := by
        show s.userPositions.take (s.userPositions.length - numTurns.toNat) = _
        rw [hs, List.length_append, List.length_cons]
      by_cases hle : numTurns.toNat ≤ extra.length
      · rw [show xs.length + (extra.length + 1) - numTurns.toNat =
          xs.length + (extra.length - numTurns.toNat + 1) by omega, List.take_length_add_append,
          List.take_succ_cons] at htaken
        rw [ih htaken (Nat.lt_succ_of_lt hp)]
        refine forall_congr' fun j => ?_
        rw [List.length_take]
        omega
      · refine iff_of_false ?_ fun h => ?_
        · refine not_mem_run (s := s.step E (.rollback numTurns)) (Nat.lt_succ_of_lt hp) (fun hmem => hxs ?_) items
          rw [htaken, List.take_append_of_le_length (by omega)] at hmem
          exact List.mem_of_mem_take hmem
        · have h0 := h 0
          exact hle h0

end UserScan

theorem userMessagePositions_eq (hcompact : ∀ item ∈ items, item.isCompacted = false) :
    userMessagePositionsInRollout E items =
      (runMarked (ReplayedTurn.isUserMessage E) (turnOpsFrom E 0 items)).map Prod.fst := by
  unfold userMessagePositionsInRollout
  induction items using List.reverseRecOn with
  | nil => rfl
  | append_singleton items item ih =>
    have ih := ih fun i hi => hcompact i (List.mem_append_left _ hi)
    have hidx : (({} : UserScan).run E items).idx = items.length := by
      rw [UserScan.run_idx]
      exact Nat.zero_add _
    rw [UserScan.run_append, runMarked_turnOps_append_singleton]
    show (({} : UserScan).run E items).visit E item = _
    cases turnEffect (E := E) (hcompact item (by simp)) items.length with
    | marker numTurns hitem =>
      subst hitem
      show List.take _ _ = (MarkedStack.popped _ _).map _
      rw [ih, popped, List.map_take, List.length_map]
    | turn y hy hops hmodel hadd huser hrolled =>
      rw [UserScan.visit_of_not_marker hrolled, huser, hops, ih, hidx]
      show _ = (if isRealUserMessageBoundary E y then _ else _ : List ReplayedTurn).map _
      split
      · rw [List.map_append]
        rfl
      · rfl
    | quiet added hops hadd hcount huser hrolled =>
      rw [UserScan.visit_of_not_marker hrolled, huser, hops, ih]
      rfl

/-! ## When the cut is right -/

theorem mem_turnOpsFrom {idx : Nat} {op}
    (h : op ∈ turnOpsFrom E idx items) : ∃ k item, items[k]? = some item ∧ op ∈ turnOps E (idx + k) item := by
  induction items generalizing idx with
  | nil => cases h
  | cons item items ih =>
    rcases List.mem_append.1 h with h | h
    · exact ⟨0, item, rfl, h⟩
    · obtain ⟨k, item', hk, hop⟩ := ih h
      refine ⟨k + 1, item', hk, ?_⟩
      rwa [show idx + (k + 1) = idx + 1 + k by omega]

theorem record_of_message (hcompact : ∀ item ∈ items, item.isCompacted = false)
    (h : message ∈ replayedUserMessages E items) :
    ∃ item, items[message.1]? = some item ∧ item.isUserMessage E = true ∧ rolledBackTurns [item] = 0 := by
  obtain ⟨hrun, hreal⟩ := List.mem_filter.1 h
  obtain ⟨k, item, hk, hop⟩ := mem_turnOpsFrom (mem_run hrun)
  rw [Nat.zero_add] at hop
  cases turnEffect (E := E) (hcompact item (List.mem_of_getElem? hk)) k with
  | marker numTurns hitem =>
    subst hitem
    cases List.mem_singleton.1 hop
  | turn y hy hops hmodel hadd huser hrolled =>
    rw [hops, List.mem_singleton, StackOp.push.injEq] at hop
    subst hop
    exact ⟨item, hk, huser.trans hreal, hrolled⟩
  | quiet added hops =>
    rw [hops] at hop
    cases hop

/-- The scan still has a user message of the replay where no marker reaches it. -/
theorem mem_positions_iff (hcompact : ∀ item ∈ items, item.isCompacted = false)
    (h : message ∈ replayedUserMessages E items) :
    message.1 ∈ userMessagePositionsInRollout E items ↔ Unreached E (items.drop (message.1 + 1)) := by
  obtain ⟨item, hitem, huser, hrolled⟩ := record_of_message hcompact h
  obtain ⟨hlt, hget⟩ := List.getElem?_eq_some_iff.1 hitem
  have hidx : (({} : UserScan).run E (items.take message.1)).idx = message.1 := by
    rw [UserScan.run_idx, List.length_take, Nat.min_eq_left hlt.le]
    exact Nat.zero_add _
  have hfresh : message.1 ∉ userMessagePositionsInRollout E (items.take message.1) := by
    have hcompact (i : RolloutItem) (hi : i ∈ items.take message.1) := hcompact i (List.mem_of_mem_take hi)
    intro hmem
    rw [userMessagePositions_eq hcompact] at hmem
    have hmarked : (runMarked (ReplayedTurn.isUserMessage E) (turnOpsFrom E 0 (items.take message.1))).Sublist
        (MarkedStack.run (turnOpsFrom E 0 (items.take message.1))) := (runMarked_sublist _).trans List.filter_sublist
    have hsub := hmarked.map Prod.fst
    have hbound := (replayed (E := E) hcompact).bounded _ (hsub.subset hmem)
    rw [List.length_take] at hbound
    omega
  have hscan : (({} : UserScan).run E (items.take (message.1 + 1))).userPositions =
      userMessagePositionsInRollout E (items.take message.1) ++ [message.1] := by
    rw [List.take_add_one, hitem, UserScan.run_append]
    show UserScan.visit E _ item = _
    rw [UserScan.visit_of_not_marker hrolled, huser, if_pos rfl, hidx]
    rfl
  have hnext : message.1 < (({} : UserScan).run E (items.take (message.1 + 1))).idx := by
    rw [UserScan.run_idx, List.length_take, Nat.min_eq_left hlt]
    exact Nat.lt_add_left _ (Nat.lt_succ_self _)
  have hsplit : userMessagePositionsInRollout E items =
      ((({} : UserScan).run E (items.take (message.1 + 1))).run E (items.drop (message.1 + 1))).userPositions := by
    rw [← UserScan.run_append, List.take_append_drop]
    rfl
  rw [hsplit, UserScan.mem_run_iff hscan hfresh hnext]
  refine forall_congr' fun j => ?_
  rw [List.length_nil, Nat.zero_add]

/-- **When the cut is before the nth user message of the replay**: after each of the first `n + 1` of them,
no markers count more turns than there are user messages since. -/
theorem truncate_before_nth_iff {items : List RolloutItem} (hcompact : ∀ item ∈ items, item.isCompacted = false)
    (hlen : items.length ≤ usizeMax) {n : Nat}
    (hn : n < (({} : ForwardReplay).run E items).history.items.countP (isRealUserMessageBoundary E)) :
    CutsBeforeNth E items n ↔
      ∀ message ∈ (replayedUserMessages E items).take (n + 1), Unreached E (items.drop (message.1 + 1)) := by
  have hreplay (records : List RolloutItem) (hsub : records.Sublist items) :
      (({} : ForwardReplay).run E records).history.items = replayItems E [] records :=
    run_items (fun item hi => hcompact item (hsub.subset hi)) {}
  rw [hreplay items (List.Sublist.refl _), countP_real_replay hcompact] at hn
  have hr := replayed (E := E) hcompact
  have hmessages : ((replayedUserMessages E items).map Prod.fst).Sublist
      ((MarkedStack.run (turnOpsFrom E 0 items)).map Prod.fst) := List.filter_sublist.map Prod.fst
  have hnodup : ((replayedUserMessages E items).map Prod.fst).Nodup :=
    hmessages.nodup (hr.ascending.imp fun hlt => Nat.ne_of_lt hlt)
  have hsub : (userMessagePositionsInRollout E items).Sublist ((replayedUserMessages E items).map Prod.fst) := by
    rw [userMessagePositions_eq hcompact]
    exact (runMarked_sublist _).map Prod.fst
  have hmax : n ≠ usizeMax := by
    have hrange : List.Subperm ((replayedUserMessages E items).map Prod.fst) (List.range items.length) :=
      List.subperm_of_subset hnodup fun p hp => List.mem_range.2 (hr.bounded p (hmessages.subset hp))
    have hle := hrange.length_le
    rw [List.length_map, List.length_range] at hle
    omega
  have hindex : (userMessagePositionsInRollout E items)[n]? = ((replayedUserMessages E items).map Prod.fst)[n]? ↔
      ∀ message ∈ (replayedUserMessages E items).take (n + 1), Unreached E (items.drop (message.1 + 1)) := by
    rw [getElem?_eq_iff_of_sublist hsub hnodup (by rwa [List.length_map]), ← List.map_take, List.forall_mem_map]
    exact forall₂_congr fun message hm => mem_positions_iff hcompact (List.mem_of_mem_take hm)
  rw [← hindex]
  unfold CutsBeforeNth truncateRolloutBeforeNthUserMessageFromStart
  rw [if_neg hmax, hreplay items (List.Sublist.refl _)]
  have hnth := List.getElem?_eq_getElem hn
  obtain ⟨hbefore, hcount⟩ := replayItems_take hcompact hnth
  rw [List.getElem?_map, hnth, Option.map_some, ← hbefore]
  cases hget : (userMessagePositionsInRollout E items)[n]? with
  | none =>
    refine iff_of_false (fun heq => ?_) (Option.some_ne_none _).symm
    have hwhole := congrArg (List.countP (isRealUserMessageBoundary E)) heq
    rw [hreplay items (List.Sublist.refl _), countP_real_replay hcompact, hcount] at hwhole
    omega
  | some cutIdx =>
    rw [Option.some.injEq]
    rw [hreplay _ (List.take_sublist ..)]
    refine ⟨fun heq => ?_, fun heq => by rw [heq]⟩
    -- The cut is at a user message of the replay, and the number of those before it says which.
    obtain ⟨m, hm⟩ := List.mem_iff_getElem?.1 (hsub.subset (List.mem_of_getElem? hget))
    rw [List.getElem?_map, Option.map_eq_some_iff] at hm
    obtain ⟨message, hm, rfl⟩ := hm
    have hsame : m = n := by
      rw [← (replayItems_take hcompact hm).2, heq, hcount]
    subst hsame
    rw [hnth, Option.some.injEq] at hm
    rw [hm]

/-- Two messages of the user and one of an agent, the last of which is rolled back. -/
def rolledBackDelivery : List RolloutItem :=
  [.responseItem (textMessage "user" "one"), .responseItem (textMessage "user" "two"),
    .interAgentCommunication { author := "root", recipient := "worker", content := "go".toList, triggerTurn := true },
    .rollback 1]

theorem truncate_before_nth_iff_rolledBackDelivery :
    CutsBeforeNth .plain rolledBackDelivery 0 ↔
      ∀ message ∈ (replayedUserMessages .plain rolledBackDelivery).take 1,
        Unreached .plain (rolledBackDelivery.drop (message.1 + 1)) :=
  truncate_before_nth_iff (by decide) (by decide) (by decide +kernel)

/-- The second message is there after the replay, and the cut before it keeps it. -/
theorem not_cutsBeforeNth_rolledBackDelivery :
    (∀ item ∈ rolledBackDelivery, item.isCompacted = false) ∧
      1 < (({} : ForwardReplay).run .plain rolledBackDelivery).history.items.countP (isRealUserMessageBoundary .plain) ∧
      ¬ CutsBeforeNth .plain rolledBackDelivery 1 := by
  refine ⟨by decide, by decide +kernel, ?_⟩
  unfold CutsBeforeNth
  decide +kernel

end Codex
