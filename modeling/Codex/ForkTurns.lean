/-
Forking from the last turns (`core/src/thread_rollout_truncation.rs`): where
the turns of a rollout begin once its rollback markers are applied, and the
cut that keeps the last few of them. Rollbacks count instruction turns and
forks count the turns that a user or a triggering agent message begins, so
the scan trims two lists of positions in step.

The cut still holds rolled-back turns with their markers; its replay is the end of the
whole replay nevertheless.
-/
import Codex.RollbackFacts

namespace Codex

variable (E : Externals)

/-! ## Turn positions -/

/-- Whether `parse_turn_item` reads the item as a user message. -/
def isRealUserMessageBoundary : ResponseItem → Bool
  | .message _ "user" content _ _ =>
    !isVisibleHookPromptMessage E content && (parseUserMessage E content).isSome
  | _ => false

/-- A legacy assistant envelope that begins a turn. -/
def isTriggerTurnBoundary : ResponseItem → Bool
  | .message _ role content _ _ => role == "assistant" && (fromMessageContent E content).any (·.triggerTurn)
  | _ => false

def ResponseItem.isAgentMessage : ResponseItem → Bool
  | .agentMessage .. => true
  | _ => false

def RolloutItem.isDeliveryMetadata : RolloutItem → Bool
  | .interAgentCommunicationMetadata _ => true
  | _ => false

/-- Position number `n` from the end, counted from one; the first one when there are fewer. -/
def nthFromEnd (positions : List Nat) (n : Nat) : Option Nat :=
  if n ≤ positions.length then positions[positions.length - n]? else positions.head?

/-- The local variables of `fork_turn_positions_in_rollout`, with the item before `idx`. -/
structure ForkScan where
  idx : Nat := 0
  previous : Option RolloutItem := none
  rollbackTurnPositions : List Nat := []
  forkTurnPositions : List Nat := []

namespace ForkScan

def pushRollbackTurn (s : ForkScan) (counts : Bool) : ForkScan :=
  if counts then { s with rollbackTurnPositions := s.rollbackTurnPositions ++ [s.idx] } else s

def pushForkTurn (s : ForkScan) (counts : Bool) : ForkScan :=
  if counts then { s with forkTurnPositions := s.forkTurnPositions ++ [s.idx] } else s

/-- The rollback arm: the stale suffix begins at the earliest turn rolled back. -/
def rollBack (s : ForkScan) (numTurns : Nat) : ForkScan :=
  if numTurns = 0 then s
  else match nthFromEnd s.rollbackTurnPositions numTurns with
  | none => s
  | some rollbackStartIdx =>
    { s with
      rollbackTurnPositions := s.rollbackTurnPositions.take (s.rollbackTurnPositions.length - numTurns)
      forkTurnPositions := s.forkTurnPositions.filter (· < rollbackStartIdx) }

/-- The body of the loop. -/
def visit (s : ForkScan) : RolloutItem → ForkScan
  | .responseItem item =>
    let hasDeliveryMetadata := item.isAgentMessage && s.previous.any (·.isDeliveryMetadata)
    (s.pushRollbackTurn (isUserTurnBoundary E item && !hasDeliveryMetadata)).pushForkTurn
      (isRealUserMessageBoundary E item || isTriggerTurnBoundary E item)
  | .interAgentCommunication communication => (s.pushRollbackTurn true).pushForkTurn communication.triggerTurn
  | .interAgentCommunicationMetadata triggerTurn => (s.pushRollbackTurn true).pushForkTurn triggerTurn
  | .eventMsg (.threadRolledBack numTurns) => s.rollBack numTurns.toNat
  | _ => s

def step (s : ForkScan) (item : RolloutItem) : ForkScan :=
  { s.visit E item with idx := s.idx + 1, previous := some item }

def run (s : ForkScan) (items : List RolloutItem) : ForkScan := items.foldl (step E) s

end ForkScan

def forkTurnPositionsInRollout (items : List RolloutItem) : List Nat :=
  (({} : ForkScan).run E items).forkTurnPositions

def truncateRolloutToLastNForkTurns (items : List RolloutItem) (nFromEnd : Nat) : List RolloutItem :=
  if nFromEnd = 0 then []
  else match nthFromEnd (forkTurnPositionsInRollout E items) nFromEnd with
  | none => []
  | some keepIdx => items.drop keepIdx

/-! ## Records that begin a turn -/

variable {E}

theorem isUserTurnBoundary_of_fork {item}
    (h : (isRealUserMessageBoundary E item || isTriggerTurnBoundary E item) = true) :
    isUserTurnBoundary E item = true ∧ item.isAgentMessage = false := by
  cases item with
  | message id role content phase metadata =>
    refine ⟨?_, rfl⟩
    rw [Bool.or_eq_true] at h
    rcases h with h | h
    · unfold isRealUserMessageBoundary at h
      split at h
      · next heq =>
        cases heq
        simp only [Bool.and_eq_true, parseUserMessage] at h
        split at h
        · simp at h
        · next hc => simp [isUserTurnBoundary, hc]
      · cases h
    · simp only [isTriggerTurnBoundary, Bool.and_eq_true, beq_iff_eq, Option.any_eq_true] at h
      obtain ⟨rfl, c, hc, -⟩ := h
      simp [isUserTurnBoundary, isMessageContent, hc]
  | _ => simp [isRealUserMessageBoundary, isTriggerTurnBoundary] at h

/-- What a replay makes of the items of the history, at a record that is no compaction. -/
def replayItem (E : Externals) (history : List ResponseItem) : RolloutItem → List ResponseItem
  | .eventMsg (.threadRolledBack numTurns) =>
    MarkedList.dropMarks (isUserTurnBoundary E) (isContextUpdate E) numTurns.toNat history
  | item => history ++ recordedItems E (modelItems [item])

/-- The replay of records without compactions, on the items of the history. -/
def replayItems (E : Externals) (history : List ResponseItem) (items : List RolloutItem) : List ResponseItem :=
  items.foldl (replayItem E) history

variable {items extra : List RolloutItem} {positions : List Nat} {k : Nat} {added : List ResponseItem}
  {s : ForkScan}

theorem run_items (h : ∀ item ∈ items, item.isCompacted = false) (r : ForwardReplay) :
    (r.run E items).history.items = replayItems E r.history.items items := by
  induction items generalizing r with
  | nil => rfl
  | cons item items ih =>
    have hstep : (r.step E item).history.items = replayItem E r.history.items item := by
      cases item with
      | responseItem i => exact recordItem_items _ _
      | interAgentCommunication c => exact recordItem_items _ _
      | compacted c => cases h (.compacted c) (by simp)
      | eventMsg e =>
        cases e with
        | threadRolledBack n => exact ContextManager.dropLastNUserTurns_items _ _
        | _ => exact (List.append_nil _).symm
      | _ => exact (List.append_nil _).symm
    change ((r.step E item).run E items).history.items = _
    rw [ih (fun i hi => h i (by simp [hi])), hstep]
    rfl

theorem replayItems_append (history : List ResponseItem) (items extra : List RolloutItem) :
    replayItems E history (items ++ extra) = replayItems E (replayItems E history items) extra :=
  List.foldl_append

/-- The records of one delivery: a single record, or the metadata of a
communication with the agent message it belongs to. -/
inductive IsDelivery : List RolloutItem → Prop
  | single (item : RolloutItem) (h : item.isDeliveryMetadata = false) : IsDelivery [item]
  | withMetadata (triggerTurn : Bool) (item : ResponseItem) (h : item.isAgentMessage = true) :
      IsDelivery [.interAgentCommunicationMetadata triggerTurn, .responseItem item]

def RolloutItem.isAgentMessage : RolloutItem → Bool
  | .responseItem item => item.isAgentMessage
  | _ => false

/-- Every metadata record is immediately followed by its agent message. -/
def MetadataDelivered (items : List RolloutItem) : Prop :=
  ∀ i < items.length, items[i]?.any (·.isDeliveryMetadata) = true → items[i + 1]?.any (·.isAgentMessage) = true

instance (items : List RolloutItem) : Decidable (MetadataDelivered items) :=
  inferInstanceAs (Decidable (∀ i < items.length, _ → _))

theorem MetadataDelivered.tail {item} (h : MetadataDelivered (item :: items)) : MetadataDelivered items :=
  fun i hi => h (i + 1) (by simpa using hi)

theorem deliveries : ∀ {items : List RolloutItem}, MetadataDelivered items →
    ∃ chunks : List (List RolloutItem), items = chunks.flatten ∧ ∀ chunk ∈ chunks, IsDelivery chunk
  | [], _ => ⟨[], rfl, by simp⟩
  | item :: items, h => by
    cases hm : item.isDeliveryMetadata with
    | false =>
      obtain ⟨chunks, rfl, hc⟩ := deliveries h.tail
      refine ⟨[item] :: chunks, rfl, fun chunk hchunk => ?_⟩
      rcases List.mem_cons.1 hchunk with rfl | hchunk
      · exact .single item hm
      · exact hc chunk hchunk
    | true =>
      have hnext := h 0 (by simp) (by simpa using hm)
      match items, h, hnext with
      | [], _, hnext => cases hnext
      | next :: items, h, hnext =>
        obtain ⟨chunks, rfl, hc⟩ := deliveries h.tail.tail
        refine ⟨[item, next] :: chunks, rfl, fun chunk hchunk => ?_⟩
        rcases List.mem_cons.1 hchunk with rfl | hchunk
        · cases item with
          | interAgentCommunicationMetadata triggerTurn =>
            cases next with
            | responseItem i => exact .withMetadata triggerTurn i hnext
            | _ => cases hnext
          | _ => cases hm
        · exact hc chunk hchunk

/-! ## What the scan knows of the replay -/

/-- A fork turn at `k`, and what the replay of the records from `k` on has to do with the whole replay. -/
def KeptTurn (E : Externals) (items : List RolloutItem) (positions : List Nat) (k : Nat) : Prop :=
  ∃ before after y ys, positions = before ++ k :: after ∧
    replayItems E [] items = replayItems E [] (items.take k) ++ y :: ys ∧
    replayItems E [] (items.drop k) = y :: ys ∧ (modelItems (items.drop k)).head? = some y ∧
    isUserTurnBoundary E y = true ∧ (y :: ys).countP (isUserTurnBoundary E) = after.length + 1

namespace ForkScan

/-- The scan after `items`: its positions ascend, and its fork turns are kept turns of the replay. -/
structure Follows (E : Externals) (items : List RolloutItem) (s : ForkScan) : Prop where
  idx_eq : s.idx = items.length
  settled : s.previous.any (·.isDeliveryMetadata) = false
  ascending : s.rollbackTurnPositions.Pairwise (· < ·)
  bounded : ∀ p ∈ s.rollbackTurnPositions, p < items.length
  forkAscending : s.forkTurnPositions.Pairwise (· < ·)
  kept : ∀ k ∈ s.forkTurnPositions, KeptTurn E items s.rollbackTurnPositions k

end ForkScan

theorem KeptTurn.append {more} (h : KeptTurn E items positions k) (hk : k < items.length)
    (hadd : ∀ history, replayItems E history extra = history ++ added)
    (hcount : added.countP (isUserTurnBoundary E) = more.length) :
    KeptTurn E (items ++ extra) (positions ++ more) k := by
  obtain ⟨before, after, y, ys, hpos, hall, htail, hhead, hy, hc⟩ := h
  refine ⟨before, after ++ more, y, ys ++ added, by simp [hpos], ?_, ?_, ?_, hy, ?_⟩
  · rw [replayItems_append, hadd, hall, List.take_append_of_le_length hk.le]
    simp
  · rw [List.drop_append_of_le_length hk.le, replayItems_append, hadd, htail]
    rfl
  · rw [List.drop_append_of_le_length hk.le, modelItems, List.filterMap_append, List.head?_append]
    exact (congrArg (Option.or · _) hhead).trans rfl
  · rw [← List.cons_append, List.countP_append, hc, hcount, List.length_append]
    omega

/-- A rollback that leaves the turn at `k` drops turns after it only. -/
theorem KeptTurn.rollBack {start : Nat} {numTurns}
    (h : KeptTurn E items positions k) (hk : k < items.length) (hasc : positions.Pairwise (· < ·))
    (hstart : nthFromEnd positions numTurns.toNat = some start) (hlt : k < start) :
    KeptTurn E (items ++ [.rollback numTurns]) (positions.take (positions.length - numTurns.toNat)) k := by
  obtain ⟨before, after, y, ys, rfl, hall, htail, hhead, hy, hc⟩ := h
  have hboundary := not_isContextUpdate_of_boundary E
  -- Were the turn itself dropped, the stale suffix would begin at `k` or before.
  have hn : numTurns.toNat ≤ after.length := by
    by_contra hn
    have hle : start ≤ k := by
      have hmem : start ∈ before ++ [k] := by
        unfold nthFromEnd at hstart
        split at hstart
        · next hlen =>
          rw [List.append_cons, List.getElem?_append_left (by simp; omega)] at hstart
          exact List.mem_of_getElem? hstart
        · rw [List.append_cons, List.head?_append_of_ne_nil _ (by simp)] at hstart
          exact List.mem_of_head? hstart
      rw [List.pairwise_append] at hasc
      rcases List.mem_append.1 hmem with hb | hb
      · exact (hasc.2.2 start hb k (by simp)).le
      · rw [List.mem_singleton.1 hb]
    omega
  have hdrop : numTurns.toNat < (y :: ys).countP (isUserTurnBoundary E) := by omega
  obtain ⟨zs, hzs⟩ := MarkedList.dropMarks_cons hboundary hdrop
  have htake : (before ++ k :: after).take ((before ++ k :: after).length - numTurns.toNat) =
      before ++ k :: after.take (after.length - numTurns.toNat) := by
    rw [List.length_append, List.length_cons,
      show before.length + (after.length + 1) - numTurns.toNat =
        before.length + (after.length - numTurns.toNat + 1) by omega, List.take_length_add_append,
      List.take_succ_cons]
  refine ⟨before, after.take (after.length - numTurns.toNat), y, zs, htake, ?_, ?_, ?_, hy, ?_⟩
  · rw [List.take_append_of_le_length hk.le, replayItems_append, hall, ← hzs]
    exact MarkedList.dropMarks_append hboundary hy hdrop
  · rw [List.drop_append_of_le_length hk.le, replayItems_append, htail]
    exact hzs
  · rw [List.drop_append_of_le_length hk.le, modelItems, List.filterMap_append, List.head?_append]
    exact (congrArg (Option.or · _) hhead).trans rfl
  · rw [← hzs, MarkedList.countP_dropMarks hboundary, List.length_take]
    omega

namespace ForkScan

theorem Follows.position_lt (h : Follows E items s) (hk : k ∈ s.forkTurnPositions) : k < items.length := by
  obtain ⟨before, after, y, ys, hpos, -⟩ := h.kept k hk
  exact h.bounded k (by simp [hpos])

/-- Records that add `added` to the history, and of which at most the first begins a turn. -/
theorem Follows.append {s' more forks} (h : Follows E items s) (hextra : extra ≠ [])
    (hidx : s'.idx = s.idx + extra.length) (hsettled : s'.previous.any (·.isDeliveryMetadata) = false)
    (hroll : s'.rollbackTurnPositions = s.rollbackTurnPositions ++ more)
    (hfork : s'.forkTurnPositions = s.forkTurnPositions ++ forks)
    (hadd : ∀ history, replayItems E history extra = history ++ added)
    (hcount : added.countP (isUserTurnBoundary E) = more.length)
    (hmore : ∀ p ∈ more, p = items.length) (hforks : forks.Sublist more) (hlen : more.length ≤ 1)
    (hhead : more ≠ [] → (modelItems extra).head? = added.head? ∧ added.head?.any (isUserTurnBoundary E) = true) :
    Follows E (items ++ extra) s' := by
  have hpos : 0 < extra.length := List.length_pos_iff.2 hextra
  have hshort (l : List Nat) (hl : l.length ≤ 1) : l.Pairwise (· < ·) := by
    match l, hl with
    | [], _ => exact .nil
    | [p], _ => exact List.pairwise_singleton ..
  refine ⟨by simp [hidx, h.idx_eq], hsettled, ?_, ?_, ?_, ?_⟩
  · rw [hroll, List.pairwise_append]
    refine ⟨h.ascending, hshort more hlen, fun p hp q hq => ?_⟩
    rw [hmore q hq]
    exact h.bounded p hp
  · intro p hp
    rw [List.length_append]
    rcases List.mem_append.1 (hroll ▸ hp) with hp | hp
    · have := h.bounded p hp
      omega
    · rw [hmore p hp]
      omega
  · rw [hfork, List.pairwise_append]
    refine ⟨h.forkAscending, hshort forks (hforks.length_le.trans hlen), fun p hp q hq => ?_⟩
    rw [hmore q (hforks.subset hq)]
    exact h.position_lt hp
  · intro k hk
    rw [hroll]
    rcases List.mem_append.1 (hfork ▸ hk) with hk | hk
    · exact (h.kept k hk).append (h.position_lt hk) hadd hcount
    · -- The turn that begins here: nothing of it is replayed yet but its first item.
      have hne := List.ne_nil_of_mem (hforks.subset hk)
      obtain ⟨p, hp⟩ := List.length_eq_one_iff.1 (by have := List.length_pos_iff.2 hne; omega : more.length = 1)
      obtain ⟨hmodel, hfirst⟩ := hhead hne
      rw [hmore k (hforks.subset hk)]
      cases added with
      | nil => cases hfirst
      | cons y ys =>
        refine ⟨s.rollbackTurnPositions, [], y, ys, ?_, ?_, ?_, ?_, hfirst, by simpa [hp] using hcount⟩
        · rw [hp, hmore p (by simp [hp])]
        · rw [replayItems_append, hadd, List.take_left]
        · rw [List.drop_left, hadd]
          rfl
        · rw [List.drop_left]
          exact hmodel

theorem Follows.rollBack (h : Follows E items s) (numTurns : UInt32) :
    Follows E (items ++ [.rollback numTurns]) (s.step E (.rollback numTurns)) := by
  have hstep : s.step E (.rollback numTurns) =
      { s.rollBack numTurns.toNat with idx := s.idx + 1, previous := some (.rollback numTurns) } := rfl
  by_cases h0 : numTurns.toNat = 0
  · have hadd (history : List ResponseItem) : replayItems E history [.rollback numTurns] = history ++ [] := by
      change MarkedList.dropMarks _ _ numTurns.toNat history = _
      simp [MarkedList.dropMarks, h0]
    have hsame : s.rollBack numTurns.toNat = s := by simp [ForkScan.rollBack, h0]
    rw [hstep, hsame]
    exact h.append (by simp) rfl rfl (List.append_nil _).symm (List.append_nil _).symm hadd rfl (by simp) .slnil
      (by simp) (by simp)
  · cases hstart : nthFromEnd s.rollbackTurnPositions numTurns.toNat with
    | none =>
      have hnone : s.rollBack numTurns.toNat = s := by simp [ForkScan.rollBack, h0, hstart]
      have hnil : s.rollbackTurnPositions = [] := by
        unfold nthFromEnd at hstart
        split at hstart
        · rw [List.getElem?_eq_none_iff] at hstart
          exact List.length_eq_zero_iff.1 (by omega)
        · exact List.head?_eq_none_iff.1 hstart
      have hfork : s.forkTurnPositions = [] := by
        by_contra hne
        obtain ⟨k, hk⟩ := List.exists_mem_of_ne_nil _ hne
        obtain ⟨before, after, y, ys, hpos, -⟩ := h.kept k hk
        simp [hnil] at hpos
      rw [hstep, hnone]
      exact ⟨by simp [h.idx_eq], rfl, by simp [hnil], by simp [hnil], by simp [hfork], by simp [hfork]⟩
    | some start =>
      have hsome : s.rollBack numTurns.toNat =
          { s with
            rollbackTurnPositions := s.rollbackTurnPositions.take (s.rollbackTurnPositions.length - numTurns.toNat)
            forkTurnPositions := s.forkTurnPositions.filter (· < start) } := by
        simp [ForkScan.rollBack, h0, hstart]
      rw [hstep, hsome]
      refine ⟨by simp [h.idx_eq], rfl, h.ascending.sublist (List.take_sublist ..), fun p hp => ?_,
        h.forkAscending.sublist List.filter_sublist, fun k hk => ?_⟩
      · have := h.bounded p (List.mem_of_mem_take hp)
        simp only [List.length_append, List.length_singleton]
        omega
      · obtain ⟨hk, hlt⟩ := List.mem_filter.1 hk
        exact (h.kept k hk).rollBack (h.position_lt hk) h.ascending hstart (by simpa using hlt)

/-- A record that adds no turn. -/
theorem Follows.quiet {item} (h : Follows E items s)
    (hitem : item.isDeliveryMetadata = false) (hvisit : s.visit E item = s)
    (hadd : ∀ history, replayItems E history [item] = history ++ added)
    (hcount : added.countP (isUserTurnBoundary E) = 0) : Follows E (items ++ [item]) (s.step E item) := by
  have hroll : (s.step E item).rollbackTurnPositions = s.rollbackTurnPositions ++ [] := by simp [step, hvisit]
  have hfork : (s.step E item).forkTurnPositions = s.forkTurnPositions ++ [] := by simp [step, hvisit]
  exact h.append (by simp) rfl hitem hroll hfork hadd hcount (by simp) .slnil (by simp) (by simp)

/-- Records that begin a turn with `y`. -/
theorem Follows.turn {s' y}
    (h : Follows E items s) (isFork : Bool) (hextra : extra ≠ []) (hidx : s'.idx = s.idx + extra.length)
    (hsettled : s'.previous.any (·.isDeliveryMetadata) = false)
    (hroll : s'.rollbackTurnPositions = (s.pushRollbackTurn true).rollbackTurnPositions)
    (hfork : s'.forkTurnPositions = (s.pushForkTurn isFork).forkTurnPositions)
    (hadd : ∀ history, replayItems E history extra = history ++ [y])
    (hmodel : (modelItems extra).head? = some y) (hy : isUserTurnBoundary E y = true) :
    Follows E (items ++ extra) s' := by
  have hforks : s'.forkTurnPositions = s.forkTurnPositions ++ if isFork then [s.idx] else [] := by
    rw [hfork]
    cases isFork <;> simp [pushForkTurn]
  refine h.append hextra hidx hsettled hroll hforks hadd (by simp [hy]) (by simp [h.idx_eq]) ?_ (by simp)
    fun _ => ⟨hmodel, hy⟩
  cases isFork <;> simp

theorem replayItems_boundary {item} (h : isUserTurnBoundary E item = true)
    (history : List ResponseItem) : replayItems E history [.responseItem item] = history ++ [item] := by
  obtain ⟨hapi, hself⟩ := isApiMessage_of_boundary h
  change history ++ recordedItems E [item] = _
  simp [recordedItems, hapi, hself]

/-- **One delivery** of the rollout. -/
theorem Follows.delivery {chunk} (h : Follows E items s)
    (hchunk : IsDelivery chunk) (hcompact : ∀ item ∈ chunk, item.isCompacted = false) :
    Follows E (items ++ chunk) (s.run E chunk) := by
  cases hchunk with
  | withMetadata triggerTurn item hitem =>
    cases item with
    | agentMessage id author recipient content metadata =>
      refine h.turn triggerTurn (by simp) rfl rfl ?_ ?_ (fun history => ?_) rfl rfl
      · cases triggerTurn <;> rfl
      · cases triggerTurn <;> rfl
      · change replayItems E (history ++ []) [.responseItem _] = _
        rw [List.append_nil, replayItems_boundary rfl]
    | _ => cases hitem
  | single item hitem =>
    cases item with
    | responseItem item =>
      have hvisit : s.visit E (.responseItem item) = (s.pushRollbackTurn (isUserTurnBoundary E item)).pushForkTurn
          (isRealUserMessageBoundary E item || isTriggerTurnBoundary E item) := by
        simp [visit, h.settled]
      cases hb : isUserTurnBoundary E item with
      | true =>
        rw [hb] at hvisit
        refine h.turn (isRealUserMessageBoundary E item || isTriggerTurnBoundary E item) (by simp) rfl rfl
          ?_ ?_ (replayItems_boundary hb) rfl hb
        · change (s.visit E _).rollbackTurnPositions = _
          rw [hvisit]
          unfold pushForkTurn
          split <;> rfl
        · change (s.visit E _).forkTurnPositions = _
          rw [hvisit]
          unfold pushForkTurn
          split <;> rfl
      | false =>
        have hfork : (isRealUserMessageBoundary E item || isTriggerTurnBoundary E item) = false := by
          by_contra hf
          rw [(isUserTurnBoundary_of_fork (eq_true_of_ne_false hf)).1] at hb
          cases hb
        refine h.quiet rfl ?_ (fun history => rfl) (recordedItems_countP [item] (by simp [hb]))
        rw [hvisit, hb, hfork]
        rfl
    | interAgentCommunication c =>
      refine h.turn c.triggerTurn (by simp) rfl rfl ?_ ?_ (fun history => ?_) rfl rfl
      · change ((s.pushRollbackTurn true).pushForkTurn c.triggerTurn).rollbackTurnPositions = _
        unfold pushForkTurn
        split <;> rfl
      · change ((s.pushRollbackTurn true).pushForkTurn c.triggerTurn).forkTurnPositions = _
        unfold pushForkTurn
        split <;> rfl
      · exact replayItems_boundary rfl history
    | interAgentCommunicationMetadata => cases hitem
    | compacted c => cases hcompact (.compacted c) (by simp)
    | eventMsg e =>
      cases e with
      | threadRolledBack numTurns => exact h.rollBack numTurns
      | _ => exact h.quiet rfl rfl (fun history => rfl) rfl
    | _ => exact h.quiet rfl rfl (fun history => rfl) rfl

theorem run_append (s : ForkScan) (items extra : List RolloutItem) :
    s.run E (items ++ extra) = (s.run E items).run E extra := List.foldl_append

/-- **The scan of a rollout.** -/
theorem follows (hcompact : ∀ item ∈ items, item.isCompacted = false)
    (hmeta : MetadataDelivered items) : Follows E items (({} : ForkScan).run E items) := by
  obtain ⟨chunks, rfl, hchunks⟩ := deliveries hmeta
  clear hmeta
  induction chunks using List.reverseRecOn with
  | nil => exact ⟨rfl, rfl, .nil, by simp [run], .nil, by simp [run]⟩
  | append_singleton chunks chunk ih =>
    rw [List.flatten_append, List.flatten_singleton] at hcompact ⊢
    rw [run_append]
    refine Follows.delivery (ih (fun c hc => hchunks c (by simp [hc])) fun item hi => ?_) (hchunks chunk (by simp))
      fun item hi => ?_
    · exact hcompact item (List.mem_append_left _ hi)
    · exact hcompact item (List.mem_append_right _ hi)

end ForkScan

theorem nthFromEnd_mem {n : Nat} (hn : 1 ≤ n) (hne : positions ≠ []) :
    ∃ k ∈ positions, nthFromEnd positions n = some k := by
  unfold nthFromEnd
  split
  · next h => exact ⟨_, List.getElem_mem _, List.getElem?_eq_getElem (by omega)⟩
  · exact ⟨positions.head hne, List.head_mem hne, List.head?_eq_some_head hne⟩

/-! ## The tail that is kept -/

/-- **Keeping the last fork turns keeps the end of the replay**: the records
from the kept turn on replay to what the whole replay has from that turn on. -/
theorem truncateRolloutToLastNForkTurns_replay {items : List RolloutItem}
    (hcompact : ∀ item ∈ items, item.isCompacted = false) (hmeta : MetadataDelivered items) {n : Nat} (hn : 1 ≤ n)
    (hne : forkTurnPositionsInRollout E items ≠ []) :
    (forkTurnPositionsInRollout E items).Pairwise (· < ·) ∧
    ∃ keepIdx ∈ forkTurnPositionsInRollout E items,
      nthFromEnd (forkTurnPositionsInRollout E items) n = some keepIdx ∧
      (({} : ForwardReplay).run E items).history.items =
        (({} : ForwardReplay).run E (items.take keepIdx)).history.items ++
          (({} : ForwardReplay).run E (truncateRolloutToLastNForkTurns E items n)).history.items ∧
      ∃ turn, isUserTurnBoundary E turn = true ∧ (modelItems (items.drop keepIdx)).head? = some turn ∧
        (({} : ForwardReplay).run E (truncateRolloutToLastNForkTurns E items n)).history.items.head? = some turn := by
  have hfollows := ForkScan.follows (E := E) hcompact hmeta
  refine ⟨hfollows.forkAscending, ?_⟩
  obtain ⟨k, hk, hnth⟩ := nthFromEnd_mem hn hne
  refine ⟨k, hk, hnth, ?_⟩
  obtain ⟨-, -, y, ys, -, hall, htail, hhead, hy, -⟩ := hfollows.kept k hk
  have htrunc : truncateRolloutToLastNForkTurns E items n = items.drop k := by
    simp only [truncateRolloutToLastNForkTurns, if_neg (by omega : n ≠ 0), hnth]
  have hreplay (records : List RolloutItem) (hsub : records.Sublist items) :
      (({} : ForwardReplay).run E records).history.items = replayItems E [] records :=
    run_items (fun item hi => hcompact item (hsub.subset hi)) {}
  rw [htrunc, hreplay items (List.Sublist.refl _), hreplay _ (List.take_sublist ..), hreplay _ (List.drop_sublist ..),
    htail]
  exact ⟨hall, y, hy, hhead, rfl⟩

/-- Three deliveries, the second and the last of them rolled back. -/
def deliveredTurns : List RolloutItem :=
  [.interAgentCommunication { author := "root", recipient := "worker", content := "one".toList, triggerTurn := true },
    .interAgentCommunication { author := "root", recipient := "worker", content := "two".toList, triggerTurn := false },
    .rollback 1, .interAgentCommunicationMetadata true,
    .responseItem (.agentMessage none "root" "worker" [.inputText "three".toList] none),
    .responseItem (textMessage "assistant" "done"),
    .interAgentCommunication { author := "root", recipient := "worker", content := "four".toList, triggerTurn := true },
    .rollback 1]

theorem truncateRolloutToLastNForkTurns_deliveredTurns :
    forkTurnPositionsInRollout .plain deliveredTurns = [0, 3] ∧
    ∃ keepIdx ∈ forkTurnPositionsInRollout .plain deliveredTurns,
      nthFromEnd (forkTurnPositionsInRollout .plain deliveredTurns) 1 = some keepIdx ∧
      (({} : ForwardReplay).run .plain deliveredTurns).history.items =
        (({} : ForwardReplay).run .plain (deliveredTurns.take keepIdx)).history.items ++
          (({} : ForwardReplay).run .plain (truncateRolloutToLastNForkTurns .plain deliveredTurns 1)).history.items := by
  refine ⟨by decide +kernel, ?_⟩
  obtain ⟨-, k, hk, hnth, hreplay, -⟩ := @truncateRolloutToLastNForkTurns_replay .plain deliveredTurns (by decide)
    (by decide) 1 (by decide) (by decide +kernel)
  exact ⟨k, hk, hnth, hreplay⟩

end Codex
