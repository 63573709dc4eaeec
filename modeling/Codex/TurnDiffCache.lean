/-
The rendered diffs the tracker keeps from one refresh to the next
(`core/src/turn_diff_tracker.rs`). A rendering is found again by the paths of its two
sides and the revisions of their contents. No revision is given out twice, so one log of
the contents by revision explains everything the tracker keeps (`Logged`).
-/
import Codex.TurnDiffFacts

namespace Codex.TurnDiff

open Patch

variable {P : Type} [DecidableEq P]

namespace TurnDiffTracker

variable (tools : DiffTools P) (t : TurnDiffTracker P)

/-- `get_unified_diff`, were every tracked file rendered from scratch. -/
def freshDiff : Option Text := (({ t with renderedDiffs := ∅ } : TurnDiffTracker P).refreshUnifiedDiff tools).unifiedDiff

/-! ## The log -/

/-- What a kept rendering is, by the log. -/
def Explains (log : Nat → Text) (key : DiffCacheKey P) (rendered : Option Text) : Prop :=
  (∀ r, key.leftRevision = some r → r < t.nextRevision) ∧ (∀ r, key.rightRevision = some r → r < t.nextRevision) ∧
    rendered = t.renderDiff tools key.leftPath (key.leftRevision.map log) key.rightPath (key.rightRevision.map log)

/-- The log has the content with this revision. -/
def Kept (log : Nat → Text) (c : TrackedContent) : Prop := c.revision < t.nextRevision ∧ c.content = log c.revision

structure Logged (log : Nat → Text) : Prop where
  baseline : ∀ x c, t.baselineByPath.lookup x = some c → t.Kept log c
  current : ∀ x c, t.currentByPath.lookup x = some c → t.Kept log c
  rendered : ∀ key d, t.renderedDiffs.lookup key = some d → t.Explains tools log key d

variable {tools t} {log : Nat → Text}

namespace Logged

theorem removeOrigin (h : t.Logged tools log) (x : TrackedPath P) : (t.removeOrigin x).Logged tools log :=
  ⟨h.baseline, h.current, h.rendered⟩

theorem removeCurrent (h : t.Logged tools log) (x : TrackedPath P) : (t.removeCurrent x).Logged tools log where
  baseline := h.baseline
  current y c hy := by
    refine h.current y c ?_
    by_cases hyx : y = x
    · subst hyx
      rw [show (t.removeCurrent y).currentByPath.lookup y = none from AList.lookup_erase _ _] at hy
      cases hy
    · rwa [show (t.removeCurrent x).currentByPath.lookup y = _ from AList.lookup_erase_ne hyx] at hy
  rendered := h.rendered

theorem add (h : t.Logged tools log) (content : Text) : ∃ log', (t.trackedContent content).2.Logged tools log' ∧
    (t.trackedContent content).2.Kept log' (t.trackedContent content).1 := by
  have hold : ∀ {r}, r < t.nextRevision → Function.update log t.nextRevision content r = log r :=
    fun hr => Function.update_of_ne (Nat.ne_of_lt hr) _ _
  have hkept : ∀ {c}, t.Kept log c → (t.trackedContent content).2.Kept (Function.update log t.nextRevision content) c :=
    fun hc => ⟨Nat.lt_succ_of_lt hc.1, by rw [hold hc.1, hc.2]⟩
  have hmap : ∀ {revision : Option Nat}, (∀ r, revision = some r → r < t.nextRevision) →
      revision.map (Function.update log t.nextRevision content) = revision.map log := by
    intro revision hgiven
    cases revision with
    | none => rfl
    | some r => rw [Option.map_some, Option.map_some, hold (hgiven r rfl)]
  refine ⟨Function.update log t.nextRevision content, ⟨fun x c hx => hkept (h.baseline x c hx),
    fun x c hx => hkept (h.current x c hx), fun key d hkey => ?_⟩, ⟨Nat.lt_succ_self _, ?_⟩⟩
  · obtain ⟨hleft, hright, hrendered⟩ := h.rendered key d hkey
    refine ⟨fun r hr => Nat.lt_succ_of_lt (hleft r hr), fun r hr => Nat.lt_succ_of_lt (hright r hr), ?_⟩
    rw [hmap hleft, hmap hright]
    exact hrendered
  · exact (Function.update_self t.nextRevision content log).symm

theorem insertBaseline (h : t.Logged tools log) (x : TrackedPath P) (content : Text) :
    ∃ log', (t.insertBaseline x content).Logged tools log' := by
  obtain ⟨log', hlogged, hkept⟩ := h.add content
  refine ⟨log', fun y c hy => ?_, hlogged.current, hlogged.rendered⟩
  by_cases hyx : y = x
  · subst hyx
    rw [show (t.insertBaseline y content).baselineByPath.lookup y = _ from AList.lookup_insert _] at hy
    obtain rfl := Option.some.inj hy
    exact hkept
  · rw [show (t.insertBaseline x content).baselineByPath.lookup y = _ from AList.lookup_insert_ne hyx] at hy
    exact hlogged.baseline y c hy

theorem insertCurrent (h : t.Logged tools log) (x : TrackedPath P) (content : Text) :
    ∃ log', (t.insertCurrent x content).Logged tools log' := by
  obtain ⟨log', hlogged, hkept⟩ := h.add content
  refine ⟨log', hlogged.baseline, fun y c hy => ?_, hlogged.rendered⟩
  by_cases hyx : y = x
  · subst hyx
    rw [show (t.insertCurrent y content).currentByPath.lookup y = _ from AList.lookup_insert _] at hy
    obtain rfl := Option.some.inj hy
    exact hkept
  · rw [show (t.insertCurrent x content).currentByPath.lookup y = _ from AList.lookup_insert_ne hyx] at hy
    exact hlogged.current y c hy

theorem noteBaseline (h : t.Logged tools log) (x : TrackedPath P) (content : Option Text) :
    ∃ log', (t.noteBaseline x content).Logged tools log' := by
  unfold TurnDiffTracker.noteBaseline
  split
  · cases content with
    | none => exact ⟨log, h⟩
    | some content => exact h.insertBaseline x content
  · exact ⟨log, h⟩

theorem moveCurrent (h : t.Logged tools log) (x y : TrackedPath P) (content : Text) :
    ∃ log', (t.moveCurrent x y content).Logged tools log' := by
  obtain ⟨log', hinsert⟩ := ((h.removeOrigin x).removeCurrent x).insertCurrent y content
  refine ⟨log', ?_⟩
  unfold TurnDiffTracker.moveCurrent
  dsimp only
  split
  · exact ⟨hinsert.baseline, hinsert.current, hinsert.rendered⟩
  · exact hinsert.removeOrigin y

theorem applyChange (h : t.Logged tools log) (env : Text) (change : AppliedPatchChange P) :
    ∃ log', (t.applyChange env change).Logged tools log' := by
  obtain ⟨path, kind⟩ := change
  cases kind with
  | add content overwrittenContent =>
    obtain ⟨log', hnote⟩ := (h.removeOrigin ⟨env, path⟩).noteBaseline ⟨env, path⟩ overwrittenContent
    exact hnote.insertCurrent _ content
  | delete content =>
    obtain ⟨log', hnote⟩ := h.noteBaseline ⟨env, path⟩ (some content)
    refine ⟨log', ?_⟩
    change (t.applyDelete _ content).Logged tools log'
    rw [t.applyDelete_eq]
    exact (hnote.removeCurrent _).removeOrigin _
  | update movePath oldContent overwrittenMoveContent newContent =>
    obtain ⟨log', hnote⟩ := h.noteBaseline ⟨env, path⟩ (some oldContent)
    cases movePath with
    | none => exact hnote.insertCurrent _ newContent
    | some dest =>
      obtain ⟨log'', hdest⟩ := hnote.noteBaseline ⟨env, dest⟩ overwrittenMoveContent
      exact hdest.moveCurrent _ _ newContent

theorem applyChanges (h : t.Logged tools log) (env : Text) (changes : List (AppliedPatchChange P)) :
    ∃ log', (changes.foldl (fun t change => t.applyChange env change) t).Logged tools log' := by
  induction changes generalizing t log with
  | nil => exact ⟨log, h⟩
  | cons change changes ih =>
    obtain ⟨log', hchange⟩ := h.applyChange env change
    exact ih hchange

end Logged

/-! ## Refreshing -/

variable (tools t)

def diffKey (x y : TrackedPath P) : DiffCacheKey P where
  leftPath := x
  leftRevision := (t.baselineByPath.lookup x).map (·.revision)
  rightPath := y
  rightRevision := (t.currentByPath.lookup y).map (·.revision)

def rendering (x y : TrackedPath P) : Option Text :=
  t.renderDiff tools x ((t.baselineByPath.lookup x).map (·.content)) y ((t.currentByPath.lookup y).map (·.content))

/-- The diffs of the loop, with one more. -/
def appendDiff (aggregated : Text) : Option Text → Text
  | some diff => if (aggregated ++ diff).getLast? = some '\n' then aggregated ++ diff else aggregated ++ diff ++ ['\n']
  | none => aggregated

theorem refreshPair_eq (r : Refresh P) (x y : TrackedPath P) : t.refreshPair tools r x y = { r with
    previousDiffs := r.previousDiffs.erase (t.diffKey x y)
    renderedDiffs := r.renderedDiffs.insert (t.diffKey x y)
      ((r.previousDiffs.lookup (t.diffKey x y)).getD (t.rendering tools x y))
    aggregated := appendDiff r.aggregated ((r.previousDiffs.lookup (t.diffKey x y)).getD (t.rendering tools x y)) } := by
  unfold refreshPair
  dsimp only
  congr 1

variable {tools t}

theorem Logged.explains (h : t.Logged tools log) (x y : TrackedPath P) :
    t.Explains tools log (t.diffKey x y) (t.rendering tools x y) := by
  have hside : ∀ {c : Option TrackedContent}, (∀ c', c = some c' → t.Kept log c') →
      (∀ r, c.map (·.revision) = some r → r < t.nextRevision) ∧ (c.map (·.revision)).map log = c.map (·.content) := by
    intro c hc
    cases c with
    | none => exact ⟨fun _ hr => (by cases hr), rfl⟩
    | some c =>
      obtain ⟨hgiven, hcontent⟩ := hc c rfl
      refine ⟨fun r hr => ?_, congrArg some hcontent.symm⟩
      obtain rfl := Option.some.inj hr
      exact hgiven
  obtain ⟨hleft, hleftContent⟩ := hside (h.baseline x)
  obtain ⟨hright, hrightContent⟩ := hside (h.current y)
  refine ⟨hleft, hright, ?_⟩
  rw [diffKey, hleftContent, hrightContent]
  rfl

theorem Logged.found (h : t.Logged tools log) {diffs : AList fun _ : DiffCacheKey P => Option Text}
    (hdiffs : ∀ key d, diffs.lookup key = some d → t.Explains tools log key d) (x y : TrackedPath P) :
    (diffs.lookup (t.diffKey x y)).getD (t.rendering tools x y) = t.rendering tools x y := by
  cases hfound : diffs.lookup (t.diffKey x y) with
  | none => rfl
  | some d =>
    rw [Option.getD_some, (hdiffs _ d hfound).2.2]
    exact (h.explains x y).2.2.symm

/-- The loop holds only renderings that the log explains. -/
structure Sound (tools : DiffTools P) (t : TurnDiffTracker P) (log : Nat → Text) (r : Refresh P) : Prop where
  previous : ∀ key d, r.previousDiffs.lookup key = some d → t.Explains tools log key d
  rendered : ∀ key d, r.renderedDiffs.lookup key = some d → t.Explains tools log key d

/-- Two passes of the loop, each with kept renderings of its own. -/
structure Alongside (tools : DiffTools P) (t : TurnDiffTracker P) (log : Nat → Text) (r r' : Refresh P) : Prop where
  left : Sound tools t log r
  right : Sound tools t log r'
  handled : r.handled = r'.handled
  aggregated : r.aggregated = r'.aggregated

theorem Sound.refreshPair (h : t.Logged tools log) {r} (hr : Sound tools t log r) (x y : TrackedPath P) :
    Sound tools t log (t.refreshPair tools r x y) := by
  rw [refreshPair_eq]
  constructor
  · intro key d hd
    by_cases hkey : key = t.diffKey x y
    · subst hkey
      rw [AList.lookup_erase] at hd
      cases hd
    · rw [AList.lookup_erase_ne hkey] at hd
      exact hr.previous key d hd
  · intro key d hd
    by_cases hkey : key = t.diffKey x y
    · subst hkey
      rw [AList.lookup_insert, h.found hr.previous] at hd
      obtain rfl := Option.some.inj hd
      exact h.explains x y
    · rw [AList.lookup_insert_ne hkey] at hd
      exact hr.rendered key d hd

theorem Alongside.refreshPair (h : t.Logged tools log) {r r'} (hr : Alongside tools t log r r')
    (x y : TrackedPath P) : Alongside tools t log (t.refreshPair tools r x y) (t.refreshPair tools r' x y) := by
  refine ⟨hr.left.refreshPair h x y, hr.right.refreshPair h x y, ?_, ?_⟩
  · rw [refreshPair_eq, refreshPair_eq]
    exact hr.handled
  · rw [refreshPair_eq, refreshPair_eq, h.found hr.left.previous, h.found hr.right.previous, hr.aggregated]

theorem Alongside.handle {r r'} (hr : Alongside tools t log r r') (handled : List (TrackedPath P)) :
    Alongside tools t log { r with handled } { r' with handled } :=
  ⟨⟨hr.left.previous, hr.left.rendered⟩, ⟨hr.right.previous, hr.right.rendered⟩, rfl, hr.aggregated⟩

theorem Alongside.refreshPath (h : t.Logged tools log) {r r'} (hr : Alongside tools t log r r')
    (x : TrackedPath P) : Alongside tools t log (t.refreshPath tools r x) (t.refreshPath tools r' x) := by
  unfold TurnDiffTracker.refreshPath
  rw [hr.handled]
  split
  next => exact hr
  next =>
    dsimp only
    split
    next => exact hr.handle _
    next =>
      split
      next dest _ => exact (hr.handle _).refreshPair h x dest
      next => exact (hr.handle _).refreshPair h x x

theorem Alongside.refreshPaths (h : t.Logged tools log) {r r'} (hr : Alongside tools t log r r')
    (paths : List (TrackedPath P)) :
    Alongside tools t log (paths.foldl (t.refreshPath tools) r) (paths.foldl (t.refreshPath tools) r') := by
  induction paths generalizing r r' with
  | nil => exact hr
  | cons path paths ih => exact ih (hr.refreshPath h path)

/-- A refresh is a fresh one, and what it keeps is explained again. -/
theorem Logged.refresh (h : t.Logged tools log) : (t.refreshUnifiedDiff tools).Logged tools log ∧
    (t.refreshUnifiedDiff tools).unifiedDiff = (t.refreshUnifiedDiff tools).freshDiff tools := by
  have hstart : Alongside tools t log ⟨[], t.renderedDiffs, ∅, []⟩ ⟨[], ∅, ∅, []⟩ :=
    ⟨⟨h.rendered, fun _ _ hd => (by cases hd)⟩, ⟨fun _ _ hd => (by cases hd), fun _ _ hd => (by cases hd)⟩, rfl, rfl⟩
  have hloop := hstart.refreshPaths h (((t.baselineByPath.keys ++ t.currentByPath.keys).insertionSort
    fun a b => t.displayPath tools a ≤ t.displayPath tools b).destutter (· ≠ ·))
  refine ⟨⟨h.baseline, h.current, hloop.left.rendered⟩, ?_⟩
  have hdiff := congrArg (fun aggregated : Text => if aggregated = [] then none else some aggregated) hloop.aggregated
  exact hdiff

/-! ## Runs -/

/-- The tracker's diff is a fresh one, and none once it is not valid. -/
structure Current (tools : DiffTools P) (t : TurnDiffTracker P) : Prop where
  fresh : t.valid = true → (∃ log, t.Logged tools log) ∧ t.unifiedDiff = t.freshDiff tools
  invalid : t.valid = false → t.unifiedDiff = none

theorem current_start (roots : List (Text × P)) : (withEnvironmentDisplayRoots roots).Current tools where
  fresh _ := ⟨⟨fun _ => [], fun _ _ hx => (by cases hx), fun _ _ hx => (by cases hx), fun _ _ hd => (by cases hd)⟩, rfl⟩
  invalid h := by cases h

theorem Current.trackDelta (h : t.Current tools) (env : Text) (delta : AppliedPatchDelta P) :
    (t.trackDelta tools env delta).Current tools ∧ (t.trackDelta tools env delta).valid = (t.valid && delta.exact) := by
  cases hvalid : t.valid with
  | false =>
    have hkept : t.trackDelta tools env delta = t := by
      rw [TurnDiffTracker.trackDelta, hvalid]
      rfl
    rw [hkept]
    exact ⟨h, hvalid⟩
  | true =>
    cases hexact : delta.exact with
    | false =>
      have hinvalid : t.trackDelta tools env delta = t.invalidate := by
        rw [TurnDiffTracker.trackDelta, hvalid, hexact]
        rfl
      rw [hinvalid]
      exact ⟨⟨fun hv => absurd hv Bool.false_ne_true, fun _ => rfl⟩, rfl⟩
    | true =>
      obtain ⟨⟨log, hlogged⟩, -⟩ := h.fresh hvalid
      obtain ⟨log', hchanged⟩ := hlogged.applyChanges env delta.changes
      obtain ⟨hrefreshed, hfresh⟩ := hchanged.refresh
      have hvalid' := valid_trackDelta tools env hvalid hexact
      rw [trackDelta_exact tools hvalid hexact] at hvalid' ⊢
      exact ⟨⟨fun _ => ⟨⟨log', hrefreshed⟩, hfresh⟩, fun hinvalid => by rw [hvalid'] at hinvalid; cases hinvalid⟩, hvalid'⟩

theorem Current.track (h : t.Current tools) (deltas : List (Text × AppliedPatchDelta P)) :
    (t.track tools deltas).Current tools ∧
      (t.track tools deltas).valid = (t.valid && deltas.all fun delta => delta.2.exact) := by
  induction deltas generalizing t with
  | nil => exact ⟨h, (Bool.and_true _).symm⟩
  | cons delta deltas ih =>
    obtain ⟨hcurrent, hvalid⟩ := h.trackDelta delta.1 delta.2
    obtain ⟨hrest, hvalidRest⟩ := ih hcurrent
    refine ⟨hrest, hvalidRest.trans ?_⟩
    rw [hvalid, List.all_cons, Bool.and_assoc]

end TurnDiffTracker
end Codex.TurnDiff
