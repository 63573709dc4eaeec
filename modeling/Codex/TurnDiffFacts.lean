/-
The tracker's maps against the file system. Each change it sees records what it replaced;
as long as those records are what replaying the changes so far leaves, the maps hold the
content of every path named so far at the start of the turn and now (`track_follows`).
-/
import Codex.TurnDiff
import Codex.PatchDelta

namespace Codex.TurnDiff

open Patch

variable {P : Type} [DecidableEq P]

namespace TurnDiffTracker

variable (t : TurnDiffTracker P)

/-- The content the tracker keeps from the start of the turn. -/
def baseline (x : TrackedPath P) : Option Text := (t.baselineByPath.lookup x).map (·.content)

def current (x : TrackedPath P) : Option Text := (t.currentByPath.lookup x).map (·.content)

def origin (x : TrackedPath P) : Option (TrackedPath P) := t.originByCurrentPath.lookup x

/-! ## What each operation does to the maps -/

theorem map_content_insert (m : AList fun _ : TrackedPath P => TrackedContent) (x : TrackedPath P) (c : TrackedContent) :
    (fun y => ((m.insert x c).lookup y).map (·.content)) =
      Function.update (fun y => (m.lookup y).map (·.content)) x (some c.content) := by
  funext y
  by_cases hy : y = x
  · subst hy
    rw [AList.lookup_insert, Function.update_self]
    rfl
  · rw [AList.lookup_insert_ne hy, Function.update_of_ne hy]

theorem map_content_erase (m : AList fun _ : TrackedPath P => TrackedContent) (x : TrackedPath P) :
    (fun y => ((m.erase x).lookup y).map (·.content)) =
      Function.update (fun y => (m.lookup y).map (·.content)) x none := by
  funext y
  by_cases hy : y = x
  · subst hy
    rw [AList.lookup_erase, Function.update_self]
    rfl
  · rw [AList.lookup_erase_ne hy, Function.update_of_ne hy]

theorem mem_currentByPath {x} : x ∉ t.currentByPath ↔ t.current x = none := by
  unfold current
  rw [Option.map_eq_none_iff, AList.lookup_eq_none]

theorem mem_baselineByPath {x} : x ∉ t.baselineByPath ↔ t.baseline x = none := by
  unfold baseline
  rw [Option.map_eq_none_iff, AList.lookup_eq_none]

@[simp] theorem baseline_insertBaseline (x : TrackedPath P) (c : Text) :
    (t.insertBaseline x c).baseline = Function.update t.baseline x (some c) := map_content_insert _ _ _

@[simp] theorem current_insertBaseline (x : TrackedPath P) (c : Text) :
    (t.insertBaseline x c).current = t.current := rfl

@[simp] theorem origin_insertBaseline (x : TrackedPath P) (c : Text) :
    (t.insertBaseline x c).origin = t.origin := rfl

@[simp] theorem baseline_insertCurrent (x : TrackedPath P) (c : Text) :
    (t.insertCurrent x c).baseline = t.baseline := rfl

@[simp] theorem current_insertCurrent (x : TrackedPath P) (c : Text) :
    (t.insertCurrent x c).current = Function.update t.current x (some c) := map_content_insert _ _ _

@[simp] theorem origin_insertCurrent (x : TrackedPath P) (c : Text) :
    (t.insertCurrent x c).origin = t.origin := rfl

@[simp] theorem baseline_removeOrigin (x : TrackedPath P) : (t.removeOrigin x).baseline = t.baseline := rfl

@[simp] theorem current_removeOrigin (x : TrackedPath P) : (t.removeOrigin x).current = t.current := rfl

@[simp] theorem origin_removeOrigin (x : TrackedPath P) :
    (t.removeOrigin x).origin = Function.update t.origin x none := by
  funext y
  by_cases hy : y = x
  · subst hy
    rw [Function.update_self]
    exact AList.lookup_erase _ _
  · rw [Function.update_of_ne hy]
    exact AList.lookup_erase_ne hy

@[simp] theorem baseline_removeCurrent (x : TrackedPath P) : (t.removeCurrent x).baseline = t.baseline := rfl

@[simp] theorem current_removeCurrent (x : TrackedPath P) :
    (t.removeCurrent x).current = Function.update t.current x none := map_content_erase _ _

@[simp] theorem origin_removeCurrent (x : TrackedPath P) : (t.removeCurrent x).origin = t.origin := rfl

/-- A path without any content gets the one the change replaced as its baseline. -/
@[simp] theorem baseline_noteBaseline (x : TrackedPath P) (c : Option Text) :
    (t.noteBaseline x c).baseline =
      if t.current x = none ∧ t.baseline x = none then Function.update t.baseline x c else t.baseline := by
  unfold noteBaseline
  simp only [mem_currentByPath, mem_baselineByPath]
  by_cases h : t.current x = none ∧ t.baseline x = none
  · rw [if_pos h, if_pos h]
    cases c with
    | some c => exact baseline_insertBaseline ..
    | none =>
      change t.baseline = _
      rw [← h.2, Function.update_eq_self]
  · rw [if_neg h, if_neg h]

variable {t} in
theorem baseline_noteBaseline_congr {t' : TurnDiffTracker P} {x : TrackedPath P} (c : Option Text)
    (hbaseline : t'.baseline = t.baseline) (hcurrent : t'.current x = t.current x) :
    (t'.noteBaseline x c).baseline = (t.noteBaseline x c).baseline := by
  rw [baseline_noteBaseline, baseline_noteBaseline, hbaseline, hcurrent]

@[simp] theorem current_noteBaseline (x : TrackedPath P) (c : Option Text) :
    (t.noteBaseline x c).current = t.current := by
  unfold noteBaseline
  split
  · cases c <;> rfl
  · rfl

@[simp] theorem origin_noteBaseline (x : TrackedPath P) (c : Option Text) :
    (t.noteBaseline x c).origin = t.origin := by
  unfold noteBaseline
  split
  · cases c <;> rfl
  · rfl

theorem applyDelete_eq (x : TrackedPath P) (c : Text) :
    t.applyDelete x c = ((t.noteBaseline x (some c)).removeCurrent x).removeOrigin x := by
  unfold applyDelete noteBaseline
  split <;> rfl

@[simp] theorem baseline_moveCurrent (x y : TrackedPath P) (c : Text) :
    (t.moveCurrent x y c).baseline = t.baseline := by
  unfold moveCurrent
  dsimp only
  split <;> rfl

@[simp] theorem current_moveCurrent (x y : TrackedPath P) (c : Text) :
    (t.moveCurrent x y c).current = Function.update (Function.update t.current x none) y (some c) := by
  have h : (t.moveCurrent x y c).current = (((t.removeOrigin x).removeCurrent x).insertCurrent y c).current := by
    unfold moveCurrent
    dsimp only
    split <;> rfl
  rw [h, current_insertCurrent, current_removeCurrent, current_removeOrigin]

@[simp] theorem origin_moveCurrent (x y : TrackedPath P) (c : Text) :
    (t.moveCurrent x y c).origin = Function.update (Function.update t.origin x none) y
      (if y ≠ (t.origin x).getD x then some ((t.origin x).getD x) else none) := by
  have hbase : ((((t.removeOrigin x).removeCurrent x).insertCurrent y c).removeOrigin y).origin =
      Function.update (Function.update t.origin x none) y none := by
    rw [origin_removeOrigin, origin_insertCurrent, origin_removeCurrent, origin_removeOrigin]
  have horigin : t.originOf x = (t.origin x).getD x := rfl
  unfold moveCurrent
  rw [horigin]
  by_cases hy : y ≠ (t.origin x).getD x
  · rw [if_pos hy, if_pos hy]
    funext z
    by_cases hz : z = y
    · subst hz
      rw [Function.update_self]
      exact AList.lookup_insert _
    · rw [Function.update_of_ne hz]
      have := congrFun hbase z
      rw [Function.update_of_ne hz] at this
      exact (AList.lookup_insert_ne hz).trans this
  · rw [if_neg hy, if_neg hy]
    exact hbase

end TurnDiffTracker

/-! ## Consistent changes -/

/-- The paths a change names. -/
def names (change : AppliedPatchChange P) : List P :=
  change.path :: match change.change with
    | .update (some dest) _ _ _ => [dest]
    | _ => []

/-- The old content a change records is what the files hold. A moved file is
gone from its own path by the time the destination is written. -/
def RecordsOld (files : P → Option FileContents) (change : AppliedPatchChange P) : Prop :=
  match change.change with
  | .add _ overwrittenContent => overwrittenContent.map .text = files change.path
  | .delete content => some (.text content) = files change.path
  | .update none oldContent _ _ => some (.text oldContent) = files change.path
  | .update (some dest) oldContent overwrittenMoveContent _ =>
    some (.text oldContent) = files change.path ∧
      (dest ≠ change.path → overwrittenMoveContent.map .text = files dest)

/-- Each change records what replaying the earlier ones leaves. -/
def ConsistentChanges (files : P → Option FileContents) : List (AppliedPatchChange P) → Prop
  | [] => True
  | change :: changes => RecordsOld files change ∧ ConsistentChanges (replayChange files change) changes

/-! ## The maps follow the files -/

/-- The tracker's maps in one environment, where the files were `init` when the
turn started and are `now`, and the changes so far named the paths `touched`. -/
structure Tracks (env : Text) (init now : P → Option FileContents) (touched : List P) (t : TurnDiffTracker P) : Prop where
  baseline : ∀ p ∈ touched, (t.baseline ⟨env, p⟩).map .text = init p
  current : ∀ p ∈ touched, (t.current ⟨env, p⟩).map .text = now p
  kept : ∀ p ∉ touched, now p = init p
  noBaseline : ∀ p ∉ touched, t.baseline ⟨env, p⟩ = none
  noCurrent : ∀ p ∉ touched, t.current ⟨env, p⟩ = none
  noOrigin : ∀ p ∉ touched, t.origin ⟨env, p⟩ = none

namespace Tracks

variable {env : Text} {init now : P → Option FileContents} {touched : List P} {t t' : TurnDiffTracker P} {p : P}

omit [DecidableEq P] in
theorem key_ne (env : Text) {q : P} (h : q ≠ p) : (⟨env, q⟩ : TrackedPath P) ≠ ⟨env, p⟩ := by
  intro heq
  exact h (TrackedPath.mk.inj heq).2

/-- Noting the content a path has now as its baseline gives the content it had
at the start: a path with no entry has not changed, or had none at the start. -/
theorem baseline_note (h : Tracks env init now touched t) {c} (hc : c.map .text = now p) :
    ((t.noteBaseline ⟨env, p⟩ c).baseline ⟨env, p⟩).map .text = init p := by
  rw [t.baseline_noteBaseline]
  by_cases hp : p ∈ touched
  · by_cases hnone : t.current ⟨env, p⟩ = none ∧ t.baseline ⟨env, p⟩ = none
    · -- named before, absent now and at the start: nothing is overwritten
      have hnow := h.current p hp
      have hinit := h.baseline p hp
      rw [hnone.1] at hnow
      rw [hnone.2] at hinit
      rw [if_pos hnone, Function.update_self, hc, ← hnow, ← hinit]
    · rw [if_neg hnone]
      exact h.baseline p hp
  · rw [if_pos ⟨h.noCurrent p hp, h.noBaseline p hp⟩, Function.update_self, hc]
    exact h.kept p hp

/-- One path gets a new current content, after its baseline is noted. -/
theorem put (h : Tracks env init now touched t) {c v} (hc : c.map .text = now p)
    (hbaseline : t'.baseline = (t.noteBaseline ⟨env, p⟩ c).baseline)
    (hcurrent : t'.current = Function.update t.current ⟨env, p⟩ v)
    (horigin : ∀ q, q ≠ p → t'.origin ⟨env, q⟩ = t.origin ⟨env, q⟩) :
    Tracks env init (Function.update now p (v.map .text)) (touched ++ [p]) t' := by
  have hother : ∀ q, q ≠ p → t'.baseline ⟨env, q⟩ = t.baseline ⟨env, q⟩ := by
    intro q hq
    rw [hbaseline, t.baseline_noteBaseline]
    split
    · exact Function.update_of_ne (key_ne env hq) _ _
    · rfl
  have hother' : ∀ q, q ≠ p → t'.current ⟨env, q⟩ = t.current ⟨env, q⟩ := by
    intro q hq
    rw [hcurrent]
    exact Function.update_of_ne (key_ne env hq) _ _
  have hold : ∀ q ∈ touched ++ [p], q ≠ p → q ∈ touched := by
    intro q hq hne
    obtain hq | hq := List.mem_append.1 hq
    · exact hq
    · exact absurd (List.mem_singleton.1 hq) hne
  have hnew : ∀ q, q ∉ touched ++ [p] → q ∉ touched ∧ q ≠ p := by
    intro q hq
    rw [List.mem_append, List.mem_singleton, not_or] at hq
    exact hq
  constructor
  · intro q hq
    by_cases hqp : q = p
    · rw [hqp, hbaseline]
      exact h.baseline_note hc
    · rw [hother q hqp]
      exact h.baseline q (hold q hq hqp)
  · intro q hq
    by_cases hqp : q = p
    · rw [hqp, hcurrent, Function.update_self, Function.update_self]
    · rw [hother' q hqp, Function.update_of_ne hqp]
      exact h.current q (hold q hq hqp)
  · intro q hq
    rw [Function.update_of_ne (hnew q hq).2]
    exact h.kept q (hnew q hq).1
  · intro q hq
    rw [hother q (hnew q hq).2]
    exact h.noBaseline q (hnew q hq).1
  · intro q hq
    rw [hother' q (hnew q hq).2]
    exact h.noCurrent q (hnew q hq).1
  · intro q hq
    rw [horigin q (hnew q hq).2]
    exact h.noOrigin q (hnew q hq).1

theorem applyAdd (h : Tracks env init now touched t) {content : Text} {overwritten}
    (hold : overwritten.map .text = now p) :
    Tracks env init (Function.update now p (some (.text content))) (touched ++ [p])
      (t.applyAdd ⟨env, p⟩ content overwritten) := by
  apply h.put (v := some content) hold
  · unfold TurnDiffTracker.applyAdd
    exact TurnDiffTracker.baseline_noteBaseline_congr overwritten rfl rfl
  · unfold TurnDiffTracker.applyAdd
    simp
  · intro q hq
    unfold TurnDiffTracker.applyAdd
    rw [TurnDiffTracker.origin_insertCurrent, TurnDiffTracker.origin_noteBaseline, TurnDiffTracker.origin_removeOrigin]
    exact Function.update_of_ne (key_ne env hq) _ _

theorem applyDelete (h : Tracks env init now touched t) {content : Text} (hold : some (.text content) = now p) :
    Tracks env init (Function.update now p none) (touched ++ [p]) (t.applyDelete ⟨env, p⟩ content) := by
  rw [t.applyDelete_eq]
  apply h.put (c := some content) (v := none) hold
  · simp
  · simp
  · intro q hq
    rw [TurnDiffTracker.origin_removeOrigin, TurnDiffTracker.origin_removeCurrent, TurnDiffTracker.origin_noteBaseline]
    exact Function.update_of_ne (key_ne env hq) _ _

theorem applyUpdate (h : Tracks env init now touched t) {oldContent newContent : Text} (overwritten : Option Text)
    (hold : some (.text oldContent) = now p) :
    Tracks env init (Function.update now p (some (.text newContent))) (touched ++ [p])
      (t.applyUpdate ⟨env, p⟩ none oldContent overwritten newContent) := by
  apply h.put (c := some oldContent) (v := some newContent) hold
  · rfl
  · unfold TurnDiffTracker.applyUpdate
    simp
  · intro q _
    unfold TurnDiffTracker.applyUpdate
    simp

theorem of_mem (h : Tracks env init now touched t) {touched'} (hmem : ∀ p, p ∈ touched' ↔ p ∈ touched) :
    Tracks env init now touched' t := by
  constructor
  · exact fun p hp => h.baseline p ((hmem p).1 hp)
  · exact fun p hp => h.current p ((hmem p).1 hp)
  · exact fun p hp => h.kept p (mt (hmem p).2 hp)
  · exact fun p hp => h.noBaseline p (mt (hmem p).2 hp)
  · exact fun p hp => h.noCurrent p (mt (hmem p).2 hp)
  · exact fun p hp => h.noOrigin p (mt (hmem p).2 hp)

/-- A move is a delete of the source and then a write of the destination. Onto
its own path it is an update. -/
theorem applyMove (h : Tracks env init now touched t) {dest : P} {oldContent newContent : Text} {overwritten}
    (hold : some (.text oldContent) = now p) (hdest : dest ≠ p → overwritten.map .text = now dest) :
    Tracks env init (Function.update (Function.update now p none) dest (some (.text newContent))) (touched ++ [p, dest])
      (t.applyUpdate ⟨env, p⟩ (some ⟨env, dest⟩) oldContent overwritten newContent) := by
  have hsource := h.applyDelete hold
  have happ : touched ++ [p, dest] = touched ++ [p] ++ [dest] := by rw [List.append_assoc]; rfl
  have hmove : t.applyUpdate ⟨env, p⟩ (some ⟨env, dest⟩) oldContent overwritten newContent =
      ((t.noteBaseline ⟨env, p⟩ (some oldContent)).noteBaseline ⟨env, dest⟩ overwritten).moveCurrent ⟨env, p⟩ ⟨env, dest⟩
        newContent := rfl
  rw [happ, hmove]
  by_cases hself : dest = p
  · subst hself
    rw [Function.update_idem]
    refine of_mem (h.put (c := some oldContent) (v := some newContent) hold ?_ ?_ ?_) ?_
    · -- the source has a baseline or a current content once its own is noted
      rw [TurnDiffTracker.baseline_moveCurrent, TurnDiffTracker.baseline_noteBaseline, if_neg]
      rw [TurnDiffTracker.current_noteBaseline, TurnDiffTracker.baseline_noteBaseline]
      split
      · rw [Function.update_self]
        exact fun hnone => nomatch hnone.2
      · assumption
    · simp
    · intro q hq
      have hkey := key_ne env hq
      rw [TurnDiffTracker.origin_moveCurrent, Function.update_of_ne hkey, Function.update_of_ne hkey]
      simp
    · simp
  · apply hsource.put (c := overwritten) (v := some newContent)
    · rw [Function.update_of_ne hself]
      exact hdest hself
    · rw [t.applyDelete_eq, TurnDiffTracker.baseline_moveCurrent]
      refine TurnDiffTracker.baseline_noteBaseline_congr overwritten ?_ ?_
      · rfl
      simp [Function.update_of_ne (key_ne env hself)]
    · rw [t.applyDelete_eq]
      simp
    · intro q hq
      rw [t.applyDelete_eq]
      simp [Function.update_of_ne (key_ne env hq)]

theorem applyChange (h : Tracks env init now touched t) {change} (hold : RecordsOld now change) :
    Tracks env init (replayChange now change) (touched ++ names change) (t.applyChange env change) := by
  obtain ⟨path, kind⟩ := change
  cases kind with
  | add content overwrittenContent => exact h.applyAdd hold
  | delete content => exact h.applyDelete hold
  | update movePath oldContent overwrittenMoveContent newContent =>
    cases movePath with
    | none => exact h.applyUpdate overwrittenMoveContent hold
    | some dest => exact h.applyMove hold.1 hold.2

theorem applyChanges {changes} (h : Tracks env init now touched t) (hold : ConsistentChanges now changes) :
    Tracks env init (replay now changes) (touched ++ changes.flatMap names)
      (changes.foldl (fun t change => t.applyChange env change) t) := by
  induction changes generalizing now touched t with
  | nil =>
    rw [List.flatMap_nil, List.append_nil]
    exact h
  | cons change changes ih =>
    rw [List.flatMap_cons, ← List.append_assoc]
    exact ih (h.applyChange hold.1) hold.2

end Tracks

/-! ## Environments apart -/

/-- Two trackers hold the same in one environment. -/
structure SameIn (env : Text) (t t' : TurnDiffTracker P) : Prop where
  baseline : ∀ p, t'.baseline ⟨env, p⟩ = t.baseline ⟨env, p⟩
  current : ∀ p, t'.current ⟨env, p⟩ = t.current ⟨env, p⟩
  origin : ∀ p, t'.origin ⟨env, p⟩ = t.origin ⟨env, p⟩

namespace SameIn

variable {env : Text} {t t' t'' : TurnDiffTracker P}

theorem refl : SameIn env t t := ⟨fun _ => rfl, fun _ => rfl, fun _ => rfl⟩

theorem trans (h : SameIn env t t') (h' : SameIn env t' t'') : SameIn env t t'' :=
  ⟨fun p => (h'.baseline p).trans (h.baseline p), fun p => (h'.current p).trans (h.current p),
    fun p => (h'.origin p).trans (h.origin p)⟩

theorem symm (h : SameIn env t t') : SameIn env t' t :=
  ⟨fun p => (h.baseline p).symm, fun p => (h.current p).symm, fun p => (h.origin p).symm⟩

omit [DecidableEq P] in
theorem update_congr [DecidableEq (TrackedPath P)] {V : Type} {f g : TrackedPath P → V} (h : ∀ p, g ⟨env, p⟩ = f ⟨env, p⟩)
    (x : TrackedPath P) (v : V) (p : P) : Function.update g x v ⟨env, p⟩ = Function.update f x v ⟨env, p⟩ := by
  by_cases hx : (⟨env, p⟩ : TrackedPath P) = x
  · subst hx
    rw [Function.update_self, Function.update_self]
  · rw [Function.update_of_ne hx, Function.update_of_ne hx]
    exact h p

theorem removeOrigin (h : SameIn env t t') (x : TrackedPath P) : SameIn env (t.removeOrigin x) (t'.removeOrigin x) where
  baseline := h.baseline
  current := h.current
  origin p := by
    rw [TurnDiffTracker.origin_removeOrigin, TurnDiffTracker.origin_removeOrigin]
    exact update_congr h.origin x none p

theorem removeCurrent (h : SameIn env t t') (x : TrackedPath P) : SameIn env (t.removeCurrent x) (t'.removeCurrent x) where
  baseline := h.baseline
  current p := by
    rw [TurnDiffTracker.current_removeCurrent, TurnDiffTracker.current_removeCurrent]
    exact update_congr h.current x none p
  origin := h.origin

theorem insertCurrent (h : SameIn env t t') (x : TrackedPath P) (c : Text) :
    SameIn env (t.insertCurrent x c) (t'.insertCurrent x c) where
  baseline := h.baseline
  current p := by
    rw [TurnDiffTracker.current_insertCurrent, TurnDiffTracker.current_insertCurrent]
    exact update_congr h.current x (some c) p
  origin := h.origin

theorem noteBaseline (h : SameIn env t t') (q : P) (c : Option Text) :
    SameIn env (t.noteBaseline ⟨env, q⟩ c) (t'.noteBaseline ⟨env, q⟩ c) where
  baseline p := by
    rw [TurnDiffTracker.baseline_noteBaseline, TurnDiffTracker.baseline_noteBaseline, h.baseline, h.current]
    split
    · exact update_congr h.baseline _ c p
    · exact h.baseline p
  current p := by
    rw [TurnDiffTracker.current_noteBaseline, TurnDiffTracker.current_noteBaseline]
    exact h.current p
  origin p := by
    rw [TurnDiffTracker.origin_noteBaseline, TurnDiffTracker.origin_noteBaseline]
    exact h.origin p

theorem moveCurrent (h : SameIn env t t') (q : P) (y : TrackedPath P) (c : Text) :
    SameIn env (t.moveCurrent ⟨env, q⟩ y c) (t'.moveCurrent ⟨env, q⟩ y c) where
  baseline p := by
    rw [TurnDiffTracker.baseline_moveCurrent, TurnDiffTracker.baseline_moveCurrent]
    exact h.baseline p
  current p := by
    rw [TurnDiffTracker.current_moveCurrent, TurnDiffTracker.current_moveCurrent]
    exact update_congr (update_congr h.current _ none) y (some c) p
  origin p := by
    rw [TurnDiffTracker.origin_moveCurrent, TurnDiffTracker.origin_moveCurrent, h.origin q]
    exact update_congr (update_congr h.origin _ none) y _ p

/-- A change of the environment does the same to both. -/
theorem applyChange (h : SameIn env t t') (change : AppliedPatchChange P) :
    SameIn env (t.applyChange env change) (t'.applyChange env change) := by
  obtain ⟨path, kind⟩ := change
  cases kind with
  | add content overwrittenContent => exact ((h.removeOrigin _).noteBaseline path overwrittenContent).insertCurrent _ content
  | delete content =>
    change SameIn env (t.applyDelete _ content) (t'.applyDelete _ content)
    rw [t.applyDelete_eq, t'.applyDelete_eq]
    exact ((h.noteBaseline path (some content)).removeCurrent _).removeOrigin _
  | update movePath oldContent overwrittenMoveContent newContent =>
    have hnoted := h.noteBaseline path (some oldContent)
    cases movePath with
    | none => exact hnoted.insertCurrent _ newContent
    | some dest => exact (hnoted.noteBaseline dest overwrittenMoveContent).moveCurrent path _ newContent

/-! A change of another environment does nothing. -/

section

variable {other : Text}

omit [DecidableEq P] in
theorem update_other [DecidableEq (TrackedPath P)] {V : Type} (hne : other ≠ env) (f : TrackedPath P → V) (q : P) (v : V) (p : P) :
    Function.update f ⟨other, q⟩ v ⟨env, p⟩ = f ⟨env, p⟩ := by
  apply Function.update_of_ne
  intro heq
  exact hne (TrackedPath.mk.inj heq).1.symm

theorem removeOrigin_other (hne : other ≠ env) (q : P) : SameIn env t (t.removeOrigin ⟨other, q⟩) where
  baseline _ := rfl
  current _ := rfl
  origin p := by
    rw [TurnDiffTracker.origin_removeOrigin]
    exact update_other hne _ q none p

theorem removeCurrent_other (hne : other ≠ env) (q : P) : SameIn env t (t.removeCurrent ⟨other, q⟩) where
  baseline _ := rfl
  current p := by
    rw [TurnDiffTracker.current_removeCurrent]
    exact update_other hne _ q none p
  origin _ := rfl

theorem insertCurrent_other (hne : other ≠ env) (q : P) (c : Text) : SameIn env t (t.insertCurrent ⟨other, q⟩ c) where
  baseline _ := rfl
  current p := by
    rw [TurnDiffTracker.current_insertCurrent]
    exact update_other hne _ q (some c) p
  origin _ := rfl

theorem noteBaseline_other (hne : other ≠ env) (q : P) (c : Option Text) : SameIn env t (t.noteBaseline ⟨other, q⟩ c) where
  baseline p := by
    rw [TurnDiffTracker.baseline_noteBaseline]
    split
    · exact update_other hne _ q c p
    · rfl
  current p := by rw [TurnDiffTracker.current_noteBaseline]
  origin p := by rw [TurnDiffTracker.origin_noteBaseline]

theorem moveCurrent_other (hne : other ≠ env) (q dest : P) (c : Text) :
    SameIn env t (t.moveCurrent ⟨other, q⟩ ⟨other, dest⟩ c) where
  baseline p := by rw [TurnDiffTracker.baseline_moveCurrent]
  current p := by
    rw [TurnDiffTracker.current_moveCurrent, update_other hne]
    exact update_other hne _ q none p
  origin p := by
    rw [TurnDiffTracker.origin_moveCurrent, update_other hne]
    exact update_other hne _ q none p

theorem applyChange_other (hne : other ≠ env) (change : AppliedPatchChange P) : SameIn env t (t.applyChange other change) := by
  obtain ⟨path, kind⟩ := change
  cases kind with
  | add content overwrittenContent =>
    exact ((removeOrigin_other hne path).trans (noteBaseline_other hne path _)).trans (insertCurrent_other hne path _)
  | delete content =>
    change SameIn env t (t.applyDelete _ content)
    rw [t.applyDelete_eq]
    exact ((noteBaseline_other hne path _).trans (removeCurrent_other hne path)).trans (removeOrigin_other hne path)
  | update movePath oldContent overwrittenMoveContent newContent =>
    have hnoted : SameIn env t (t.noteBaseline ⟨other, path⟩ (some oldContent)) := noteBaseline_other hne path _
    cases movePath with
    | none => exact hnoted.trans (insertCurrent_other hne path _)
    | some dest => exact (hnoted.trans (noteBaseline_other hne dest _)).trans (moveCurrent_other hne path dest _)

end

/-- The same changes of the environment on both sides. -/
theorem applyChanges (h : SameIn env t t') (changes : List (AppliedPatchChange P)) :
    SameIn env (changes.foldl (fun t change => t.applyChange env change) t)
      (changes.foldl (fun t change => t.applyChange env change) t') := by
  induction changes generalizing t t' with
  | nil => exact h
  | cons change changes ih => exact ih (h.applyChange change)

theorem applyChanges_other {other : Text} (hne : other ≠ env) (changes : List (AppliedPatchChange P)) :
    SameIn env t (changes.foldl (fun t change => t.applyChange other change) t) := by
  induction changes generalizing t with
  | nil => exact refl
  | cons change changes ih => exact (applyChange_other hne change).trans ih

theorem tracks (h : SameIn env t t') {init now : P → Option FileContents} {touched}
    (ht : Tracks env init now touched t) : Tracks env init now touched t' where
  baseline p hp := by rw [h.baseline, ht.baseline p hp]
  current p hp := by rw [h.current, ht.current p hp]
  kept := ht.kept
  noBaseline p hp := by rw [h.baseline, ht.noBaseline p hp]
  noCurrent p hp := by rw [h.current, ht.noCurrent p hp]
  noOrigin p hp := by rw [h.origin, ht.noOrigin p hp]

end SameIn

/-! ## Runs -/

namespace TurnDiffTracker

variable (t : TurnDiffTracker P) (tools : DiffTools P)

theorem valid_noteBaseline (x : TrackedPath P) (c : Option Text) : (t.noteBaseline x c).valid = t.valid := by
  unfold noteBaseline
  split
  · cases c <;> rfl
  · rfl

theorem valid_moveCurrent (x y : TrackedPath P) (c : Text) : (t.moveCurrent x y c).valid = t.valid := by
  unfold moveCurrent
  dsimp only
  split <;> rfl

variable (env : Text)

theorem valid_applyChange (change : AppliedPatchChange P) : (t.applyChange env change).valid = t.valid := by
  obtain ⟨path, kind⟩ := change
  cases kind with
  | add content overwrittenContent => exact valid_noteBaseline _ _ _
  | delete content =>
    change (t.applyDelete _ content).valid = t.valid
    rw [t.applyDelete_eq]
    exact valid_noteBaseline _ _ _
  | update movePath oldContent overwrittenMoveContent newContent =>
    cases movePath with
    | none => exact valid_noteBaseline _ _ _
    | some dest => exact (valid_moveCurrent ..).trans ((valid_noteBaseline ..).trans (valid_noteBaseline ..))

theorem valid_applyChanges (changes : List (AppliedPatchChange P)) :
    (changes.foldl (fun t change => t.applyChange env change) t).valid = t.valid := by
  induction changes generalizing t with
  | nil => rfl
  | cons change changes ih => exact (ih _).trans (t.valid_applyChange env change)

/-- Drawing the diff leaves the maps alone. -/
theorem sameIn_refresh : SameIn env t (t.refreshUnifiedDiff tools) :=
  ⟨fun _ => rfl, fun _ => rfl, fun _ => rfl⟩

/-- The deltas of the turn, each with its environment. -/
def track (deltas : List (Text × AppliedPatchDelta P)) : TurnDiffTracker P :=
  deltas.foldl (fun t delta => t.trackDelta tools delta.1 delta.2) t

variable {t}

theorem trackDelta_exact {env : Text} {delta} (hvalid : t.valid = true) (hexact : delta.exact = true) :
    t.trackDelta tools env delta =
      (delta.changes.foldl (fun t change => t.applyChange env change) t).refreshUnifiedDiff tools := by
  unfold trackDelta
  simp [hvalid, hexact]

theorem valid_trackDelta {delta} (hvalid : t.valid = true) (hexact : delta.exact = true) :
    (t.trackDelta tools env delta).valid = true := by
  rw [trackDelta_exact tools hvalid hexact]
  exact (t.valid_applyChanges env delta.changes).trans hvalid

end TurnDiffTracker

/-- An exact delta does the same to two valid trackers that agree on its environment. -/
theorem SameIn.trackDelta {tools : DiffTools P} {env : Text} {t t' : TurnDiffTracker P} {delta : AppliedPatchDelta P}
    (h : SameIn env t t') (hvalid : t.valid = true) (hvalid' : t'.valid = true) (hexact : delta.exact = true) :
    SameIn env (t.trackDelta tools env delta) (t'.trackDelta tools env delta) := by
  rw [TurnDiffTracker.trackDelta_exact tools hvalid hexact, TurnDiffTracker.trackDelta_exact tools hvalid' hexact]
  exact (((TurnDiffTracker.sameIn_refresh _ tools env).symm).trans (h.applyChanges delta.changes)).trans
    (TurnDiffTracker.sameIn_refresh _ tools env)

theorem SameIn.trackDelta_other {tools : DiffTools P} {env other : Text} {t : TurnDiffTracker P} {delta : AppliedPatchDelta P}
    (hne : other ≠ env) (hvalid : t.valid = true) (hexact : delta.exact = true) :
    SameIn env t (t.trackDelta tools other delta) := by
  rw [TurnDiffTracker.trackDelta_exact tools hvalid hexact]
  exact (SameIn.applyChanges_other hne delta.changes).trans (TurnDiffTracker.sameIn_refresh _ tools env)

variable {deltas : List (Text × AppliedPatchDelta P)}

/-- The other environments' deltas can be left out. -/
theorem SameIn.track {tools : DiffTools P} {env : Text} {t t' : TurnDiffTracker P}
    (h : SameIn env t t') (hvalid : t.valid = true) (hvalid' : t'.valid = true)
    (hexact : ∀ delta ∈ deltas, delta.2.exact = true) :
    SameIn env (t.track tools (deltas.filter fun delta => delta.1 = env)) (t'.track tools deltas) := by
  induction deltas generalizing t t' with
  | nil => exact h
  | cons delta deltas ih =>
    obtain ⟨hdelta, hdeltas⟩ := List.forall_mem_cons.1 hexact
    have hvalid'' := TurnDiffTracker.valid_trackDelta tools delta.1 hvalid' hdelta
    by_cases henv : delta.1 = env
    · rw [List.filter_cons_of_pos (by simpa using henv)]
      apply ih _ (TurnDiffTracker.valid_trackDelta tools delta.1 hvalid hdelta) hvalid'' hdeltas
      rw [henv]
      exact h.trackDelta hvalid hvalid' hdelta
    · rw [List.filter_cons_of_neg (by simpa using henv)]
      exact ih (h.trans (SameIn.trackDelta_other henv hvalid' hdelta)) hvalid hvalid'' hdeltas

/-- The changes of one environment, in order. -/
def changesOf (env : Text) (deltas : List (Text × AppliedPatchDelta P)) : List (AppliedPatchChange P) :=
  (deltas.filter fun delta => delta.1 = env).flatMap fun delta => delta.2.changes

omit [DecidableEq P] in
theorem changesOf_cons_self {env : Text} (delta : AppliedPatchDelta P) (deltas : List (Text × AppliedPatchDelta P)) :
    changesOf env ((env, delta) :: deltas) = delta.changes ++ changesOf env deltas := by
  unfold changesOf
  rw [List.filter_cons_of_pos (by simp), List.flatMap_cons]

omit [DecidableEq P] in
theorem changesOf_cons_other {env other : Text} (hne : other ≠ env) (delta : AppliedPatchDelta P)
    (deltas : List (Text × AppliedPatchDelta P)) : changesOf env ((other, delta) :: deltas) = changesOf env deltas := by
  unfold changesOf
  rw [List.filter_cons_of_neg (by simpa using hne)]

theorem consistentChanges_append {files : P → Option FileContents} (changes changes' : List (AppliedPatchChange P)) :
    ConsistentChanges files (changes ++ changes') ↔
      ConsistentChanges files changes ∧ ConsistentChanges (replay files changes) changes' := by
  induction changes generalizing files with
  | nil => simp [ConsistentChanges, replay]
  | cons change changes ih =>
    change RecordsOld files change ∧ ConsistentChanges _ (changes ++ changes') ↔ _
    rw [ih, ← and_assoc]
    rfl

/-- A run of deltas of any environments. -/
theorem Tracks.track (tools : DiffTools P) {env : Text} {init now : P → Option FileContents} {touched : List P}
    {t : TurnDiffTracker P} (h : Tracks env init now touched t)
    (hvalid : t.valid = true) (hexact : ∀ delta ∈ deltas, delta.2.exact = true)
    (hold : ConsistentChanges now (changesOf env deltas)) :
    Tracks env init (replay now (changesOf env deltas)) (touched ++ (changesOf env deltas).flatMap names)
      (t.track tools deltas) := by
  induction deltas generalizing now touched t with
  | nil =>
    change Tracks env init now (touched ++ []) t
    rw [List.append_nil]
    exact h
  | cons delta deltas ih =>
    obtain ⟨other, delta⟩ := delta
    obtain ⟨hdelta, hdeltas⟩ := List.forall_mem_cons.1 hexact
    have hvalid' := TurnDiffTracker.valid_trackDelta tools other hvalid hdelta
    by_cases henv : other = env
    · subst henv
      rw [changesOf_cons_self] at hold ⊢
      obtain ⟨hhead, htail⟩ := (consistentChanges_append _ _).1 hold
      have hstep : Tracks other init (replay now delta.changes) (touched ++ delta.changes.flatMap names)
          (t.trackDelta tools other delta) := by
        rw [TurnDiffTracker.trackDelta_exact tools hvalid hdelta]
        exact (TurnDiffTracker.sameIn_refresh _ tools other).tracks (h.applyChanges hhead)
      have hreplay : replay now (delta.changes ++ changesOf other deltas) =
          replay (replay now delta.changes) (changesOf other deltas) := List.foldl_append ..
      rw [hreplay, List.flatMap_append, ← List.append_assoc]
      exact ih hstep hvalid' hdeltas htail
    · rw [changesOf_cons_other henv] at hold ⊢
      exact ih ((SameIn.trackDelta_other henv hvalid hdelta).tracks h) hvalid' hdeltas hold

theorem tracks_start (roots : List (Text × P)) (env : Text) (files : P → Option FileContents) :
    Tracks env files files [] (TurnDiffTracker.withEnvironmentDisplayRoots roots) where
  baseline _ hp := absurd hp List.not_mem_nil
  current _ hp := absurd hp List.not_mem_nil
  kept _ _ := rfl
  noBaseline _ _ := rfl
  noCurrent _ _ := rfl
  noOrigin _ _ := rfl

/-- **The tracker tracks the file system.** `files` holds each environment's
files when the turn starts. -/
theorem track_follows (tools : DiffTools P) (roots : List (Text × P)) (files : Text → P → Option FileContents)
    (deltas : List (Text × AppliedPatchDelta P)) (hexact : ∀ delta ∈ deltas, delta.2.exact = true)
    (hold : ∀ env, ConsistentChanges (files env) (changesOf env deltas)) :
    let t := (TurnDiffTracker.withEnvironmentDisplayRoots roots).track tools deltas
    (∀ env, ∀ p ∈ (changesOf env deltas).flatMap names,
      (t.baseline ⟨env, p⟩).map .text = files env p ∧
      (t.current ⟨env, p⟩).map .text = replay (files env) (changesOf env deltas) p) ∧
    (∀ env, ∀ p ∉ (changesOf env deltas).flatMap names,
      ⟨env, p⟩ ∉ t.baselineByPath ∧ ⟨env, p⟩ ∉ t.currentByPath ∧ ⟨env, p⟩ ∉ t.originByCurrentPath) ∧
    (∀ env, SameIn env
      ((TurnDiffTracker.withEnvironmentDisplayRoots roots).track tools (deltas.filter fun delta => delta.1 = env)) t) := by
  intro t
  have htracks : ∀ env, Tracks env (files env) (replay (files env) (changesOf env deltas))
      ((changesOf env deltas).flatMap names) t := by
    intro env
    have hrun := (tracks_start roots env (files env)).track tools rfl hexact (hold env)
    exact hrun
  refine ⟨?_, ?_, ?_⟩
  · intro env p hp
    exact ⟨(htracks env).baseline p hp, (htracks env).current p hp⟩
  · intro env p hp
    refine ⟨t.mem_baselineByPath.2 ((htracks env).noBaseline p hp), t.mem_currentByPath.2 ((htracks env).noCurrent p hp), ?_⟩
    exact AList.lookup_eq_none.1 ((htracks env).noOrigin p hp)
  · intro env
    exact SameIn.refl.track rfl rfl hexact

/-- Paths below a root are shown without it. -/
def rootedTools : DiffTools Text where
  relativePathFrom path root := if root.isPrefixOf path then some (path.drop (root.length + 1)) else none
  inferredNativePathString := id
  unified _ _ oldHeader newHeader := "--- ".toList ++ oldHeader ++ "\n+++ ".toList ++ newHeader ++ ['\n']
  sha1Hex _ := zeroOid

/-- Deleted, added again, moved away and moved back, while another environment
adds and deletes a file of the same path. -/
theorem track_follows_thereAndBack :
    let a := "/w/a".toList
    let b := "/w/b".toList
    let text := "text".toList
    let deltas : List (Text × AppliedPatchDelta Text) :=
      [("local".toList, { changes := [⟨a, .delete text⟩, ⟨a, .add text none⟩, ⟨a, .update (some b) text none text⟩] }),
       ("remote".toList, { changes := [⟨a, .add text none⟩, ⟨a, .delete text⟩] }),
       ("local".toList, { changes := [⟨b, .update (some a) text none text⟩] })]
    let files : Text → Text → Option FileContents := fun env p =>
      if env = "local".toList ∧ p = a then some (.text text) else none
    let t := (TurnDiffTracker.withEnvironmentDisplayRoots [("local".toList, "/w".toList)]).track rootedTools deltas
    (t.current ⟨"local".toList, a⟩).map .text = replay (files "local".toList) (changesOf "local".toList deltas) a := by
  intro a b text deltas files t
  have hold : ∀ env, ConsistentChanges (files env) (changesOf env deltas) := by
    intro env
    by_cases hlocal : env = "local".toList
    · subst hlocal
      exact ⟨rfl, rfl, ⟨rfl, fun _ => rfl⟩, ⟨rfl, fun _ => rfl⟩, trivial⟩
    · by_cases hremote : env = "remote".toList
      · subst hremote
        exact ⟨rfl, rfl, trivial⟩
      · rw [changesOf_cons_other (Ne.symm hlocal), changesOf_cons_other (Ne.symm hremote),
          changesOf_cons_other (Ne.symm hlocal)]
        trivial
  exact ((track_follows rootedTools _ files deltas (by decide) hold).1 _ a (by decide)).2

end Codex.TurnDiff
