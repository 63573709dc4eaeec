/-
The turn diff and the order in which the tracker's hash maps are visited
(`core/src/turn_diff_tracker.rs`). `Alike` trackers hold the same, in any order. Which
renames are shown and the order of the paths are taken from the visits, so alike trackers
have the same diff only where no two renames shown have one origin and no two tracked paths
look the same (`Unambiguous`, `freshDiff_alike`).
-/
import Codex.TurnDiffCache

namespace Codex.TurnDiff

open Patch

variable {P : Type} [DecidableEq P]

namespace TurnDiffTracker

/-- The same maps, their entries in any order. -/
structure Alike (t u : TurnDiffTracker P) : Prop where
  valid : t.valid = u.valid
  roots : t.displayRootsByEnvironment.entries.Perm u.displayRootsByEnvironment.entries
  baseline : t.baselineByPath.entries.Perm u.baselineByPath.entries
  current : t.currentByPath.entries.Perm u.currentByPath.entries
  origin : t.originByCurrentPath.entries.Perm u.originByCurrentPath.entries
  nextRevision : t.nextRevision = u.nextRevision

/-- Also with the same renderings kept: what another order of visits makes of a tracker. -/
structure Reordered (t u : TurnDiffTracker P) : Prop extends Alike t u where
  rendered : t.renderedDiffs.entries.Perm u.renderedDiffs.entries
  unifiedDiff : t.unifiedDiff = u.unifiedDiff

variable {t u v : TurnDiffTracker P} {tools : DiffTools P} {log : Nat → Text}

namespace Alike

omit [DecidableEq P] in
theorem refl (t : TurnDiffTracker P) : t.Alike t := ⟨rfl, .refl _, .refl _, .refl _, .refl _, rfl⟩

omit [DecidableEq P] in
theorem symm (h : t.Alike u) : u.Alike t :=
  ⟨h.valid.symm, h.roots.symm, h.baseline.symm, h.current.symm, h.origin.symm, h.nextRevision.symm⟩

omit [DecidableEq P] in
theorem trans (h : t.Alike u) (h' : u.Alike v) : t.Alike v :=
  ⟨h.valid.trans h'.valid, h.roots.trans h'.roots, h.baseline.trans h'.baseline, h.current.trans h'.current,
    h.origin.trans h'.origin, h.nextRevision.trans h'.nextRevision⟩

/-! ## The changes -/

omit [DecidableEq P] in
theorem trackedContent (h : t.Alike u) (content : Text) : (t.trackedContent content).1 = (u.trackedContent content).1 := by
  rw [TurnDiffTracker.trackedContent, TurnDiffTracker.trackedContent, h.nextRevision]

theorem insertBaseline (h : t.Alike u) (x : TrackedPath P) (content : Text) :
    (t.insertBaseline x content).Alike (u.insertBaseline x content) where
  valid := h.valid
  roots := h.roots
  baseline := by
    have hinsert : ((t.baselineByPath.insert x (t.trackedContent content).1).entries.Perm
        (u.baselineByPath.insert x (u.trackedContent content).1).entries) := by
      rw [h.trackedContent]
      exact AList.perm_insert h.baseline
    exact hinsert
  current := h.current
  origin := h.origin
  nextRevision := congrArg (· + 1) h.nextRevision

theorem insertCurrent (h : t.Alike u) (x : TrackedPath P) (content : Text) :
    (t.insertCurrent x content).Alike (u.insertCurrent x content) where
  valid := h.valid
  roots := h.roots
  baseline := h.baseline
  current := by
    have hinsert : ((t.currentByPath.insert x (t.trackedContent content).1).entries.Perm
        (u.currentByPath.insert x (u.trackedContent content).1).entries) := by
      rw [h.trackedContent]
      exact AList.perm_insert h.current
    exact hinsert
  origin := h.origin
  nextRevision := congrArg (· + 1) h.nextRevision

theorem removeOrigin (h : t.Alike u) (x : TrackedPath P) : (t.removeOrigin x).Alike (u.removeOrigin x) :=
  ⟨h.valid, h.roots, h.baseline, h.current, AList.perm_erase h.origin, h.nextRevision⟩

theorem removeCurrent (h : t.Alike u) (x : TrackedPath P) : (t.removeCurrent x).Alike (u.removeCurrent x) :=
  ⟨h.valid, h.roots, h.baseline, AList.perm_erase h.current, h.origin, h.nextRevision⟩

theorem insertOrigin (h : t.Alike u) (x y : TrackedPath P) :
    ({ t with originByCurrentPath := t.originByCurrentPath.insert x y } : TurnDiffTracker P).Alike
      { u with originByCurrentPath := u.originByCurrentPath.insert x y } :=
  ⟨h.valid, h.roots, h.baseline, h.current, AList.perm_insert h.origin, h.nextRevision⟩

theorem noteBaseline (h : t.Alike u) (x : TrackedPath P) (content : Option Text) :
    (t.noteBaseline x content).Alike (u.noteBaseline x content) := by
  unfold TurnDiffTracker.noteBaseline
  simp only [AList.mem_of_perm h.current, AList.mem_of_perm h.baseline]
  split
  · cases content with
    | none => exact h
    | some content => exact h.insertBaseline x content
  · exact h

theorem moveCurrent (h : t.Alike u) (x y : TrackedPath P) (content : Text) :
    (t.moveCurrent x y content).Alike (u.moveCurrent x y content) := by
  have horigin : t.originOf x = u.originOf x := by rw [originOf, originOf, AList.perm_lookup h.origin]
  have hmoved := (((h.removeOrigin x).removeCurrent x).insertCurrent y content).removeOrigin y
  unfold TurnDiffTracker.moveCurrent
  rw [horigin]
  dsimp only
  split
  · exact hmoved.insertOrigin y (u.originOf x)
  · exact hmoved

theorem applyChange (h : t.Alike u) (env : Text) (change : AppliedPatchChange P) :
    (t.applyChange env change).Alike (u.applyChange env change) := by
  obtain ⟨path, kind⟩ := change
  cases kind with
  | add content overwrittenContent =>
    exact ((h.removeOrigin _).noteBaseline _ overwrittenContent).insertCurrent _ content
  | delete content =>
    change (t.applyDelete _ content).Alike (u.applyDelete _ content)
    rw [t.applyDelete_eq, u.applyDelete_eq]
    exact ((h.noteBaseline _ (some content)).removeCurrent _).removeOrigin _
  | update movePath oldContent overwrittenMoveContent newContent =>
    have hnote := h.noteBaseline ⟨env, path⟩ (some oldContent)
    cases movePath with
    | none => exact hnote.insertCurrent _ newContent
    | some dest => exact (hnote.noteBaseline _ overwrittenMoveContent).moveCurrent _ _ newContent

theorem applyChanges (h : t.Alike u) (env : Text) (changes : List (AppliedPatchChange P)) :
    (changes.foldl (fun t change => t.applyChange env change) t).Alike
      (changes.foldl (fun t change => t.applyChange env change) u) := by
  induction changes generalizing t u with
  | nil => exact h
  | cons change changes ih => exact ih (h.applyChange env change)

/-! ## What is shown -/

omit [DecidableEq P] in
theorem displayPath (h : t.Alike u) (tools : DiffTools P) : t.displayPath tools = u.displayPath tools := by
  funext x
  rw [TurnDiffTracker.displayPath, TurnDiffTracker.displayPath, AList.perm_lookup h.roots, h.roots.length_eq]

omit [DecidableEq P] in
theorem renderDiff (h : t.Alike u) (tools : DiffTools P) : t.renderDiff tools = u.renderDiff tools := by
  funext x l y r
  unfold TurnDiffTracker.renderDiff
  rw [h.displayPath]

theorem isRename (h : t.Alike u) : t.isRename = u.isRename := by
  funext x y
  simp only [TurnDiffTracker.isRename, AList.mem_of_perm h.current, AList.mem_of_perm h.baseline]

end Alike

/-- The destination's move from the origin is shown as a rename. -/
def Renamed (t : TurnDiffTracker P) (origin dest : TrackedPath P) : Prop :=
  t.originByCurrentPath.lookup dest = some origin ∧ t.isRename dest origin

variable {p : TrackedPath P → TrackedPath P → Bool}

theorem lookup_pairs {entries : List (Sigma fun _ : TrackedPath P => TrackedPath P)}
    {pairs : AList fun _ : TrackedPath P => TrackedPath P} {x y}
    (h : (entries.foldl (fun pairs e => if p e.1 e.2 then pairs.insert e.2 e.1 else pairs) pairs).lookup x = some y) :
    pairs.lookup x = some y ∨ ⟨y, x⟩ ∈ entries ∧ p y x := by
  induction entries generalizing pairs with
  | nil => exact .inl h
  | cons e entries ih =>
    rcases ih h with hpairs | ⟨hmem, hp⟩
    · dsimp only at hpairs
      split at hpairs
      next hp =>
        by_cases hx : x = e.2
        · subst hx
          rw [AList.lookup_insert] at hpairs
          obtain rfl := Option.some.inj hpairs
          exact .inr ⟨List.mem_cons_self, hp⟩
        · rw [AList.lookup_insert_ne hx] at hpairs
          exact .inl hpairs
      next => exact .inl hpairs
    · exact .inr ⟨List.mem_cons_of_mem e hmem, hp⟩

theorem mem_pairs {entries : List (Sigma fun _ : TrackedPath P => TrackedPath P)}
    {pairs : AList fun _ : TrackedPath P => TrackedPath P} {x}
    (h : x ∈ pairs ∨ ∃ y, ⟨y, x⟩ ∈ entries ∧ p y x) :
    x ∈ entries.foldl (fun pairs e => if p e.1 e.2 then pairs.insert e.2 e.1 else pairs) pairs := by
  induction entries generalizing pairs with
  | nil => exact h.resolve_right fun ⟨_, hmem, _⟩ => absurd hmem List.not_mem_nil
  | cons e entries ih =>
    refine ih ?_
    rcases h with hx | ⟨y, hmem, hp⟩
    · refine .inl ?_
      dsimp only
      split
      · exact (AList.mem_insert _).2 (.inr hx)
      · exact hx
    · rcases List.mem_cons.1 hmem with rfl | hmem
      · refine .inl ?_
        dsimp only
        rw [if_pos hp]
        exact (AList.mem_insert _).2 (.inl rfl)
      · exact .inr ⟨y, hmem, hp⟩

theorem lookup_renamePairs (h : ∀ origin dest dest', t.Renamed origin dest → t.Renamed origin dest' → dest = dest')
    {origin dest} : t.renamePairs.lookup origin = some dest ↔ t.Renamed origin dest := by
  have hrenamed : ∀ {d}, t.renamePairs.lookup origin = some d → t.Renamed origin d := by
    intro d hd
    rcases lookup_pairs hd with hnone | ⟨hmem, hp⟩
    · cases hnone
    · exact ⟨AList.mem_lookup_iff.2 hmem, hp⟩
  refine ⟨hrenamed, fun hd => ?_⟩
  have hmem : origin ∈ t.renamePairs := mem_pairs (.inr ⟨dest, AList.mem_lookup_iff.1 hd.1, hd.2⟩)
  obtain ⟨dest', hdest'⟩ := Option.isSome_iff_exists.1 (AList.lookup_isSome.2 hmem)
  rw [hdest', h origin dest' dest (hrenamed hdest') hd]

/-- No two renames shown have one origin, and no two tracked paths look the same. -/
structure Unambiguous (tools : DiffTools P) (t : TurnDiffTracker P) : Prop where
  renamed : ∀ origin dest dest', t.Renamed origin dest → t.Renamed origin dest' → dest = dest'
  displayed : ∀ x y, x ∈ t.baselineByPath ∨ x ∈ t.currentByPath → y ∈ t.baselineByPath ∨ y ∈ t.currentByPath →
    t.displayPath tools x = t.displayPath tools y → x = y

namespace Alike

theorem renamed (h : t.Alike u) (origin dest : TrackedPath P) : u.Renamed origin dest ↔ t.Renamed origin dest := by
  rw [Renamed, Renamed, h.isRename, AList.perm_lookup h.origin]

theorem renamePairs (h : t.Alike u) (hu : t.Unambiguous tools) (origin : TrackedPath P) :
    u.renamePairs.lookup origin = t.renamePairs.lookup origin := by
  have hu' : ∀ origin dest dest', u.Renamed origin dest → u.Renamed origin dest' → dest = dest' := by
    intro origin dest dest' hd hd'
    exact hu.renamed origin dest dest' ((h.renamed origin dest).1 hd) ((h.renamed origin dest').1 hd')
  ext dest
  rw [lookup_renamePairs hu', lookup_renamePairs hu.renamed, h.renamed]

theorem refreshPair (h : t.Alike u) (tools : DiffTools P) : t.refreshPair tools = u.refreshPair tools := by
  funext r x y
  unfold TurnDiffTracker.refreshPair
  rw [h.renderDiff, AList.perm_lookup h.baseline, AList.perm_lookup h.current]

theorem refreshPath (h : t.Alike u) (hu : t.Unambiguous tools) : t.refreshPath tools = u.refreshPath tools := by
  funext r x
  have hdest : x ∈ t.renamePairs.entries.map (·.2) ↔ x ∈ u.renamePairs.entries.map (·.2) := by
    have hvalues : ∀ {pairs : AList fun _ : TrackedPath P => TrackedPath P},
        x ∈ pairs.entries.map (·.2) ↔ ∃ origin, pairs.lookup origin = some x := by
      intro pairs
      simp only [List.mem_map, ← Option.mem_def, AList.mem_lookup_iff]
      exact ⟨fun ⟨e, he, hx⟩ => ⟨e.1, by rw [← hx]; exact he⟩, fun ⟨origin, he⟩ => ⟨_, he, rfl⟩⟩
    rw [hvalues, hvalues]
    simp only [h.renamePairs hu]
  unfold TurnDiffTracker.refreshPath
  simp only [hdest, h.renamePairs hu, h.refreshPair]

/-- The paths in the order in which they are shown. -/
theorem paths (h : t.Alike u) (hu : t.Unambiguous tools) :
    (t.baselineByPath.keys ++ t.currentByPath.keys).insertionSort
        (fun a b => t.displayPath tools a ≤ t.displayPath tools b) =
      (u.baselineByPath.keys ++ u.currentByPath.keys).insertionSort
        (fun a b => u.displayPath tools a ≤ u.displayPath tools b) := by
  rw [← h.displayPath tools]
  have htotal : Std.Total fun a b : TrackedPath P => t.displayPath tools a ≤ t.displayPath tools b :=
    ⟨fun a b => le_total _ _⟩
  have htrans : IsTrans (TrackedPath P) fun a b => t.displayPath tools a ≤ t.displayPath tools b :=
    ⟨fun a b c => le_trans⟩
  refine List.Perm.eq_of_pairwise ?_ (List.pairwise_insertionSort _ _) (List.pairwise_insertionSort _ _) ?_
  · intro a b ha hb hab hba
    rw [List.mem_insertionSort, List.mem_append] at ha hb
    refine hu.displayed a b ha (hb.imp ?_ ?_) (le_antisymm hab hba)
    · exact (AList.mem_of_perm h.baseline).2
    · exact (AList.mem_of_perm h.current).2
  · exact ((List.perm_insertionSort _ _).trans ((h.baseline.map _).append (h.current.map _))).trans
      (List.perm_insertionSort _ _).symm

end Alike

/-- Alike trackers have the same diff, where it does not show in which order they are visited. -/
theorem freshDiff_alike (h : t.Alike u) (hu : t.Unambiguous tools) : t.freshDiff tools = u.freshDiff tools := by
  have hloop : ∀ (paths : List (TrackedPath P)) (r : Refresh P), paths.foldl (t.refreshPath tools) r =
      paths.foldl (u.refreshPath tools) r := by
    intro paths r
    rw [h.refreshPath hu]
  have hfresh : ∀ v : TurnDiffTracker P, v.freshDiff tools =
      (fun aggregated : Text => if aggregated = [] then none else some aggregated)
        ((((v.baselineByPath.keys ++ v.currentByPath.keys).insertionSort
          fun a b => v.displayPath tools a ≤ v.displayPath tools b).destutter (· ≠ ·)).foldl (v.refreshPath tools)
            ⟨[], ∅, ∅, []⟩).aggregated := fun v => rfl
  rw [hfresh, hfresh, h.paths hu, hloop]

/-! ## Runs -/

omit [DecidableEq P] in
theorem reordered_refl (t : TurnDiffTracker P) : t.Reordered t := ⟨.refl t, .refl _, rfl⟩

theorem Logged.reordered (h : t.Logged tools log) (hu : t.Reordered u) : u.Logged tools log := by
  have hkept : ∀ {c}, t.Kept log c → u.Kept log c := by
    intro c hc
    rwa [Kept, ← hu.nextRevision]
  refine ⟨fun x c hx => hkept (h.baseline x c ?_), fun x c hx => hkept (h.current x c ?_), fun key d hd => ?_⟩
  · rwa [AList.perm_lookup hu.baseline]
  · rwa [AList.perm_lookup hu.current]
  · rw [← AList.perm_lookup hu.rendered] at hd
    have hexplains := h.rendered key d hd
    rwa [Explains, hu.renderDiff, hu.nextRevision] at hexplains

/-- A delta, with the maps visited in any order by the refresh. -/
inductive Step (tools : DiffTools P) (t : TurnDiffTracker P) : Text × AppliedPatchDelta P → TurnDiffTracker P → Prop
  | refreshed {env : Text} {delta : AppliedPatchDelta P} {u : TurnDiffTracker P} : t.valid = true → delta.exact = true →
    (delta.changes.foldl (fun t change => t.applyChange env change) t).Reordered u →
    Step tools t (env, delta) (u.refreshUnifiedDiff tools)
  | skipped {env : Text} {delta : AppliedPatchDelta P} : (t.valid && delta.exact) = false →
    Step tools t (env, delta) (t.trackDelta tools env delta)

/-- What tracking the deltas can lead to. -/
inductive TracksTo (tools : DiffTools P) (t : TurnDiffTracker P) :
    List (Text × AppliedPatchDelta P) → TurnDiffTracker P → Prop
  | nil : TracksTo tools t [] t
  | snoc {deltas : List (Text × AppliedPatchDelta P)} {delta : Text × AppliedPatchDelta P} {u v : TurnDiffTracker P} :
    TracksTo tools t deltas u → Step tools u delta v → TracksTo tools t (deltas ++ [delta]) v

theorem track_snoc (deltas : List (Text × AppliedPatchDelta P)) (delta : Text × AppliedPatchDelta P) :
    t.track tools (deltas ++ [delta]) = (t.track tools deltas).trackDelta tools delta.1 delta.2 := List.foldl_concat ..

/-- A step leaves alike trackers alike, and keeps the diff a fresh one. -/
theorem Step.alike {delta} (h : Step tools u delta v) (ht : t.Alike u) (hu : u.Current tools) :
    (t.trackDelta tools delta.1 delta.2).Alike v ∧ v.Current tools := by
  cases h with
  | @refreshed env delta w hvalid hexact hw =>
    obtain ⟨⟨log, hlogged⟩, -⟩ := hu.fresh hvalid
    obtain ⟨log', hchanged⟩ := hlogged.applyChanges env delta.changes
    obtain ⟨hrefreshed, hfresh⟩ := (hchanged.reordered hw).refresh
    have halike := (ht.applyChanges env delta.changes).trans hw.toAlike
    rw [trackDelta_exact tools (ht.valid.trans hvalid) hexact]
    refine ⟨⟨halike.valid, halike.roots, halike.baseline, halike.current, halike.origin, halike.nextRevision⟩,
      fun _ => ⟨⟨log', hrefreshed⟩, hfresh⟩, fun hinvalid => ?_⟩
    have hwvalid : w.valid = true := hw.valid.symm.trans ((u.valid_applyChanges env delta.changes).trans hvalid)
    exact absurd (hwvalid.symm.trans hinvalid) (by decide)
  | @skipped env delta hskip =>
    refine ⟨?_, (hu.trackDelta env delta).1⟩
    unfold TurnDiffTracker.trackDelta
    rw [ht.valid]
    split
    next => exact ht
    next hvalid =>
      split
      next => exact ⟨rfl, ht.roots, ht.baseline, ht.current, ht.origin, ht.nextRevision⟩
      next hexact =>
        simp only [Bool.not_eq_true', Bool.not_eq_false] at hvalid hexact
        rw [hvalid, hexact] at hskip
        cases hskip

variable {deltas : List (Text × AppliedPatchDelta P)}

theorem TracksTo.alike (h : TracksTo tools t deltas u) (ht : t.Current tools) :
    (t.track tools deltas).Alike u ∧ u.Current tools := by
  induction h with
  | nil => exact ⟨.refl t, ht⟩
  | snoc _ hstep ih =>
    rw [track_snoc]
    exact hstep.alike ih.1 ih.2

/-- **The turn diff does not depend on the order** in which the maps are visited, where the tracker is `Unambiguous`. -/
theorem unifiedDiff_ordered (roots : List (Text × P)) (deltas : List (Text × AppliedPatchDelta P))
    (hu : TracksTo tools (withEnvironmentDisplayRoots roots) deltas u)
    (hv : TracksTo tools (withEnvironmentDisplayRoots roots) deltas v)
    (h : ((withEnvironmentDisplayRoots roots).track tools deltas).valid = true →
      ((withEnvironmentDisplayRoots roots).track tools deltas).Unambiguous tools) : u.unifiedDiff = v.unifiedDiff := by
  obtain ⟨hualike, hucurrent⟩ := hu.alike (current_start roots)
  obtain ⟨hvalike, hvcurrent⟩ := hv.alike (current_start roots)
  cases hvalid : ((withEnvironmentDisplayRoots roots).track tools deltas).valid with
  | false =>
    rw [hucurrent.invalid (hualike.valid.symm.trans hvalid), hvcurrent.invalid (hvalike.valid.symm.trans hvalid)]
  | true =>
    rw [(hucurrent.fresh (hualike.valid.symm.trans hvalid)).2, (hvcurrent.fresh (hvalike.valid.symm.trans hvalid)).2,
      ← freshDiff_alike hualike (h hvalid), freshDiff_alike hvalike (h hvalid)]

/-! ## Two orders -/

/-- The map visited from its last entry to its first. -/
def backwards {V : Type} (m : AList fun _ : TrackedPath P => V) : AList fun _ : TrackedPath P => V where
  entries := m.entries.reverse
  nodupKeys := (List.perm_nodupKeys m.entries.reverse_perm).2 m.nodupKeys

def visitedBackwards (t : TurnDiffTracker P) : TurnDiffTracker P := { t with
  baselineByPath := backwards t.baselineByPath
  currentByPath := backwards t.currentByPath
  originByCurrentPath := backwards t.originByCurrentPath }

omit [DecidableEq P] in
theorem reordered_visitedBackwards (t : TurnDiffTracker P) : t.Reordered t.visitedBackwards :=
  ⟨⟨rfl, .refl _, (List.reverse_perm _).symm, (List.reverse_perm _).symm, (List.reverse_perm _).symm, rfl⟩, .refl _, rfl⟩

/-- One delta more, the maps visited as they are or backwards. -/
theorem TracksTo.both (h : TracksTo tools t deltas u) (env : Text)
    (delta : AppliedPatchDelta P) (hvalid : u.valid = true) (hexact : delta.exact = true) :
    TracksTo tools t (deltas ++ [(env, delta)])
        ((delta.changes.foldl (fun t change => t.applyChange env change) u).refreshUnifiedDiff tools) ∧
      TracksTo tools t (deltas ++ [(env, delta)])
        ((delta.changes.foldl (fun t change => t.applyChange env change) u).visitedBackwards.refreshUnifiedDiff tools) :=
  ⟨h.snoc (.refreshed hvalid hexact (reordered_refl _)), h.snoc (.refreshed hvalid hexact (reordered_visitedBackwards _))⟩

def startOfTurn : TurnDiffTracker Text := withEnvironmentDisplayRoots []

def bothAdded : AppliedPatchDelta Text :=
  { changes := [⟨"/w/a".toList, .add "one".toList none⟩, ⟨"/w/b".toList, .add "two".toList none⟩] }

def holdsBoth : TurnDiffTracker Text := bothAdded.changes.foldl (fun t change => t.applyChange [] change) startOfTurn

theorem unifiedDiff_ordered_bothAdded : (holdsBoth.refreshUnifiedDiff rootedTools).unifiedDiff =
    (holdsBoth.visitedBackwards.refreshUnifiedDiff rootedTools).unifiedDiff := by
  have hboth := (@TracksTo.nil _ _ rootedTools startOfTurn).both [] bothAdded rfl rfl
  refine unifiedDiff_ordered [] _ hboth.1 hboth.2 fun _ => ⟨?_, fun x y hx hy hdisplay => ?_⟩
  · rintro origin dest dest' ⟨hlookup, -⟩
    cases hlookup
  · have htracked : ∀ {x : TrackedPath Text}, x ∈ holdsBoth.baselineByPath ∨ x ∈ holdsBoth.currentByPath →
        x = ⟨[], "/w/b".toList⟩ ∨ x = ⟨[], "/w/a".toList⟩ := by
      intro x hx
      rcases hx with hx | hx
      · exact absurd hx List.not_mem_nil
      · have hkeys : x ∈ [(⟨[], "/w/b".toList⟩ : TrackedPath Text), ⟨[], "/w/a".toList⟩] := hx
        simpa using hkeys
    rcases htracked hx with rfl | rfl <;> rcases htracked hy with rfl | rfl
    · rfl
    · exact absurd hdisplay (by decide)
    · exact absurd hdisplay (by decide)
    · rfl

/-- Moved away, added again, and moved elsewhere. -/
theorem not_unifiedDiff_ordered_movedTwice :
    ¬ ∀ (tools : DiffTools Text) (roots : List (Text × Text)) (deltas : List (Text × AppliedPatchDelta Text))
      (u v : TurnDiffTracker Text), TracksTo tools (withEnvironmentDisplayRoots roots) deltas u →
      TracksTo tools (withEnvironmentDisplayRoots roots) deltas v → u.unifiedDiff = v.unifiedDiff := by
  intro h
  have hmoved := ((@TracksTo.nil _ _ rootedTools startOfTurn).both []
    { changes := [⟨"/w/a".toList, .update (some "/w/b".toList) "one".toList none "one".toList⟩] } rfl rfl).1
  have hadded := (hmoved.both [] { changes := [⟨"/w/a".toList, .add "two".toList none⟩] } rfl rfl).1
  have hagain := hadded.both []
    { changes := [⟨"/w/a".toList, .update (some "/w/c".toList) "two".toList none "two".toList⟩] } rfl rfl
  exact absurd (h rootedTools [] _ _ _ hagain.1 hagain.2) (by decide)

end TurnDiffTracker
end Codex.TurnDiff
