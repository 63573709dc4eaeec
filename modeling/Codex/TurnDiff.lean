/-
The net diff of a turn (`core/src/turn_diff_tracker.rs`). The tracker sees the
changes `apply_patch` committed, never the disk: for every path a change
names it keeps the content at the start of the turn and the content now, and
where a moved file came from.

A `HashMap` is a list of its entries in the order an iteration visits them.
How a path is shown, how two texts are diffed and the SHA-1 of a blob are
other crates' and are parameters (`DiffTools`).
-/
import Codex.PatchApply
import Mathlib.Data.Char
import Mathlib.Data.List.AList
import Mathlib.Data.List.Destutter
import Mathlib.Data.List.Lex
import Mathlib.Data.List.Sort
import Mathlib.Order.Basic

namespace Codex.TurnDiff

open Patch

structure DiffTools (P : Type) where
  /-- `PathUri::relative_path_from`, of a path and a root -/
  relativePathFrom : P → P → Option Text
  inferredNativePathString : P → Text
  /-- `similar`'s unified diff of two texts, with three lines of context and the two headers -/
  unified : Text → Text → Text → Text → Text
  sha1Hex : List UInt8 → Text

structure TrackedContent where
  content : Text
  revision : Nat
  deriving DecidableEq, Repr

structure TrackedPath (P : Type) where
  environmentId : Text
  path : P
  deriving DecidableEq, Repr

structure DiffCacheKey (P : Type) where
  leftPath : TrackedPath P
  leftRevision : Option Nat
  rightPath : TrackedPath P
  rightRevision : Option Nat
  deriving DecidableEq, Repr

structure TurnDiffTracker (P : Type) where
  valid : Bool := true
  displayRootsByEnvironment : AList (fun _ : Text => P) := ∅
  baselineByPath : AList (fun _ : TrackedPath P => TrackedContent) := ∅
  currentByPath : AList (fun _ : TrackedPath P => TrackedContent) := ∅
  originByCurrentPath : AList (fun _ : TrackedPath P => TrackedPath P) := ∅
  nextRevision : Nat := 0
  renderedDiffs : AList (fun _ : DiffCacheKey P => Option Text) := ∅
  unifiedDiff : Option Text := none

def zeroOid : Text := List.replicate 40 '0'
def devNull : Text := "/dev/null".toList
def regularFileMode : Text := "100644".toList

variable {P : Type} [DecidableEq P]

def gitBlobOid (tools : DiffTools P) (content : Text) : Text :=
  let data := (String.ofList content).toUTF8.toList
  tools.sha1Hex (("blob " ++ toString data.length ++ "\x00").toUTF8.toList ++ data)

namespace TurnDiffTracker

variable (t : TurnDiffTracker P)

def withEnvironmentDisplayRoots (displayRoots : List (Text × P)) : TurnDiffTracker P :=
  { displayRootsByEnvironment := displayRoots.foldl (fun roots r => roots.insert r.1 r.2) ∅ }

/-! ## Tracking the changes -/

/-- `tracked_content`: the content with the next revision, and the tracker after it. -/
def trackedContent (content : Text) : TrackedContent × TurnDiffTracker P :=
  ({ content, revision := t.nextRevision }, { t with nextRevision := t.nextRevision + 1 })

/-- `baseline_by_path.insert(path, self.tracked_content(content))` -/
def insertBaseline (path : TrackedPath P) (content : Text) : TurnDiffTracker P :=
  let (content, t) := t.trackedContent content
  { t with baselineByPath := t.baselineByPath.insert path content }

/-- `current_by_path.insert(path, self.tracked_content(content))` -/
def insertCurrent (path : TrackedPath P) (content : Text) : TurnDiffTracker P :=
  let (content, t) := t.trackedContent content
  { t with currentByPath := t.currentByPath.insert path content }

/-- The baseline of a path no earlier change has named. -/
def noteBaseline (path : TrackedPath P) (content : Option Text) : TurnDiffTracker P :=
  if path ∉ t.currentByPath ∧ path ∉ t.baselineByPath then
    match content with
    | some content => t.insertBaseline path content
    | none => t
  else t

def removeOrigin (path : TrackedPath P) : TurnDiffTracker P :=
  { t with originByCurrentPath := t.originByCurrentPath.erase path }

def removeCurrent (path : TrackedPath P) : TurnDiffTracker P :=
  { t with currentByPath := t.currentByPath.erase path }

def applyAdd (path : TrackedPath P) (content : Text) (overwrittenContent : Option Text) : TurnDiffTracker P :=
  ((t.removeOrigin path).noteBaseline path overwrittenContent).insertCurrent path content

def applyDelete (path : TrackedPath P) (content : Text) : TurnDiffTracker P :=
  let removed := t.removeCurrent path
  (if path ∉ t.currentByPath ∧ path ∉ t.baselineByPath then removed.insertBaseline path content else removed).removeOrigin
    path

/-- The moved file's own origin, or its path if it has none. -/
def originOf (path : TrackedPath P) : TrackedPath P := (t.originByCurrentPath.lookup path).getD path

/-- The second half of `apply_update`, of a move. -/
def moveCurrent (sourcePath destPath : TrackedPath P) (newContent : Text) : TurnDiffTracker P :=
  let origin := t.originOf sourcePath
  let t := (((t.removeOrigin sourcePath).removeCurrent sourcePath).insertCurrent destPath newContent).removeOrigin destPath
  if destPath ≠ origin then { t with originByCurrentPath := t.originByCurrentPath.insert destPath origin } else t

def applyUpdate (sourcePath : TrackedPath P) (movePath : Option (TrackedPath P)) (oldContent : Text)
    (overwrittenMoveContent : Option Text) (newContent : Text) : TurnDiffTracker P :=
  let t := t.noteBaseline sourcePath (some oldContent)
  match movePath with
  | some destPath => (t.noteBaseline destPath overwrittenMoveContent).moveCurrent sourcePath destPath newContent
  | none => t.insertCurrent sourcePath newContent

def applyChange (environmentId : Text) (change : AppliedPatchChange P) : TurnDiffTracker P :=
  let sourcePath : TrackedPath P := { environmentId, path := change.path }
  match change.change with
  | .add content overwrittenContent => t.applyAdd sourcePath content overwrittenContent
  | .delete content => t.applyDelete sourcePath content
  | .update movePath oldContent overwrittenMoveContent newContent =>
    t.applyUpdate sourcePath (movePath.map fun path => { environmentId, path }) oldContent overwrittenMoveContent newContent

/-! ## Rendering the diff -/

def displayPath (tools : DiffTools P) (path : TrackedPath P) : Text :=
  let display := ((t.displayRootsByEnvironment.lookup path.environmentId).bind
    fun root => tools.relativePathFrom path.path root).getD (tools.inferredNativePathString path.path)
  if 1 < t.displayRootsByEnvironment.entries.length ∧ path.environmentId ≠ [] then
    path.environmentId ++ '/' :: display
  else display

def renderDiff (tools : DiffTools P) (leftPath : TrackedPath P) (leftContent : Option Text) (rightPath : TrackedPath P)
    (rightContent : Option Text) : Option Text :=
  if leftContent = rightContent then none
  else
    let slashes := fun text : Text => text.map fun c => if c = '\\' then '/' else c
    let leftDisplay := slashes (t.displayPath tools leftPath)
    let rightDisplay := slashes (t.displayPath tools rightPath)
    let leftOid := (leftContent.map (gitBlobOid tools)).getD zeroOid
    let rightOid := (rightContent.map (gitBlobOid tools)).getD zeroOid
    let mode := match leftContent, rightContent with
      | none, some _ => "new file mode ".toList ++ regularFileMode ++ ['\n']
      | some _, none => "deleted file mode ".toList ++ regularFileMode ++ ['\n']
      | _, _ => []
    let oldHeader := if leftContent.isSome then "a/".toList ++ leftDisplay else devNull
    let newHeader := if rightContent.isSome then "b/".toList ++ rightDisplay else devNull
    some ("diff --git a/".toList ++ leftDisplay ++ " b/".toList ++ rightDisplay ++ ['\n'] ++ mode ++
      "index ".toList ++ leftOid ++ "..".toList ++ rightOid ++ ['\n'] ++
      tools.unified (leftContent.getD []) (rightContent.getD []) oldHeader newHeader)

/-- The moves still shown as renames: the origin is gone from the current
paths, and only the origin has a baseline. -/
def isRename (destPath originPath : TrackedPath P) : Bool :=
  !(destPath = originPath ∨ originPath ∈ t.currentByPath ∨ destPath ∉ t.currentByPath ∨
    originPath ∉ t.baselineByPath ∨ destPath ∈ t.baselineByPath)

/-- By origin; of two destinations with one origin the later one stays. -/
def renamePairs : AList (fun _ : TrackedPath P => TrackedPath P) :=
  t.originByCurrentPath.entries.foldl
    (fun pairs e => if t.isRename e.1 e.2 then pairs.insert e.2 e.1 else pairs) ∅

/-- What the loop of `refresh_unified_diff` carries from path to path. -/
structure Refresh (P : Type) [DecidableEq P] where
  handled : List (TrackedPath P)
  previousDiffs : AList (fun _ : DiffCacheKey P => Option Text)
  renderedDiffs : AList (fun _ : DiffCacheKey P => Option Text)
  aggregated : Text

/-- The body of the loop, once the two sides of the path are known. -/
def refreshPair (tools : DiffTools P) (r : Refresh P) (leftPath rightPath : TrackedPath P) : Refresh P :=
  let leftContent := t.baselineByPath.lookup leftPath
  let rightContent := t.currentByPath.lookup rightPath
  let key : DiffCacheKey P :=
    { leftPath, leftRevision := leftContent.map (·.revision), rightPath, rightRevision := rightContent.map (·.revision) }
  let rendered := (r.previousDiffs.lookup key).getD
    (t.renderDiff tools leftPath (leftContent.map (·.content)) rightPath (rightContent.map (·.content)))
  let aggregated := match rendered with
    | some diff =>
      let aggregated := r.aggregated ++ diff
      if aggregated.getLast? = some '\n' then aggregated else aggregated ++ ['\n']
    | none => r.aggregated
  { r with
    previousDiffs := r.previousDiffs.erase key
    renderedDiffs := r.renderedDiffs.insert key rendered
    aggregated }

def refreshPath (tools : DiffTools P) (r : Refresh P) (path : TrackedPath P) : Refresh P :=
  if path ∈ r.handled then r
  else
    let r := { r with handled := path :: r.handled }
    if path ∈ t.renamePairs.entries.map (·.2) then r
    else match t.renamePairs.lookup path with
      | some dest => t.refreshPair tools { r with handled := dest :: r.handled } path dest
      | none => t.refreshPair tools r path path

def refreshUnifiedDiff (tools : DiffTools P) : TurnDiffTracker P :=
  let paths := ((t.baselineByPath.keys ++ t.currentByPath.keys).insertionSort
    fun a b => t.displayPath tools a ≤ t.displayPath tools b).destutter (· ≠ ·)
  let r := paths.foldl (t.refreshPath tools) { handled := [], previousDiffs := t.renderedDiffs, renderedDiffs := ∅, aggregated := [] }
  { t with renderedDiffs := r.renderedDiffs, unifiedDiff := if r.aggregated = [] then none else some r.aggregated }

def invalidate : TurnDiffTracker P := { t with valid := false, renderedDiffs := ∅, unifiedDiff := none }

def trackDelta (tools : DiffTools P) (environmentId : Text) (delta : AppliedPatchDelta P) : TurnDiffTracker P :=
  if !t.valid then t
  else if !delta.exact then t.invalidate
  else (delta.changes.foldl (fun t change => t.applyChange environmentId change) t).refreshUnifiedDiff tools

end TurnDiffTracker

end Codex.TurnDiff
