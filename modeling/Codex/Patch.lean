/-
The apply-patch parser (`apply-patch/src/parser.rs`,
`apply-patch/src/streaming_parser.rs`): a line state machine with two
drivers. `pushDelta` and `finish` feed it a text as it arrives; `parsePatch`
splits a whole text into lines, checks the first and the last, joins them
again and runs the same machine on the result.

A `&mut self` method returns the parser it leaves behind. A method that
fails returns the error alone: no caller reads the parser afterwards.
-/
import Codex.Text

namespace Codex.Patch

open Text

def beginPatchMarker : Text := "*** Begin Patch".toList
def endPatchMarker : Text := "*** End Patch".toList
def addFileMarker : Text := "*** Add File: ".toList
def deleteFileMarker : Text := "*** Delete File: ".toList
def updateFileMarker : Text := "*** Update File: ".toList
def moveToMarker : Text := "*** Move to: ".toList
def eofMarker : Text := "*** End of File".toList
def changeContextMarker : Text := "@@ ".toList
def emptyChangeContextMarker : Text := "@@".toList
def environmentIdMarker : Text := "*** Environment ID:".toList

inductive ParseError where
  | invalidPatchError (message : String)
  | invalidHunkError (message : String) (lineNumber : Nat)
  deriving DecidableEq, Repr

structure UpdateFileChunk where
  changeContext : Option Text
  oldLines : List Text
  newLines : List Text
  isEndOfFile : Bool
  deriving DecidableEq, Repr

inductive Hunk where
  | addFile (path contents : Text)
  | deleteFile (path : Text)
  | updateFile (path : Text) (movePath : Option Text) (chunks : List UpdateFileChunk)
  deriving DecidableEq, Repr

inductive StreamingParserMode where
  | notStarted
  | startedPatch
  | addFile
  | deleteFile
  | updateFile (hunkLineNumber : Nat)
  | endedPatch
  deriving DecidableEq, Repr

structure StreamingParserState where
  mode : StreamingParserMode := .notStarted
  hunks : List Hunk := []
  environmentId : Option Text := none
  deriving DecidableEq, Repr

structure StreamingPatchParser where
  lineBuffer : Text := []
  state : StreamingParserState := {}
  lineNumber : Nat := 0
  deriving DecidableEq, Repr

def firstLineMessage : String := "The first line of the patch must be '*** Begin Patch'"
def lastLineMessage : String := "The last line of the patch must be '*** End Patch'"

def unexpectedLineMessage (line : Text) : String :=
  "Unexpected line found in update hunk: '" ++ String.ofList line ++
    "'. Every line should start with ' ' (context line), '+' (added line), or '-' (removed line)"

def expectedContextMessage (line : Text) : String :=
  "Expected update hunk to start with a @@ context marker, got: '" ++ String.ofList line ++ "'"

def noLinesMessage : String := "Update hunk does not contain any lines"

def hunkHeaderMessage (trimmed : Text) : String :=
  "'" ++ String.ofList trimmed ++ "' is not a valid hunk header. Valid hunk headers: " ++
    "'*** Add File: \x7bpath\x7d', '*** Delete File: \x7bpath\x7d', '*** Update File: \x7bpath\x7d'"

/-- `chunks.last().is_some_and(|chunk| chunk.old_lines.is_empty() && chunk.new_lines.is_empty())` -/
def lastChunkIsEmpty (chunks : List UpdateFileChunk) : Bool :=
  chunks.getLast?.any fun chunk => chunk.oldLines.isEmpty && chunk.newLines.isEmpty

/-- `chunks.last().is_some_and(|chunk| chunk.is_end_of_file)` -/
def lastChunkIsEndOfFile (chunks : List UpdateFileChunk) : Bool :=
  chunks.getLast?.any (·.isEndOfFile)

/-- `if let Some(chunk) = chunks.last_mut() { f(chunk) }` -/
def modifyLastChunk (f : UpdateFileChunk → UpdateFileChunk) (chunks : List UpdateFileChunk) :
    List UpdateFileChunk :=
  match chunks.getLast? with
  | some chunk => chunks.dropLast ++ [f chunk]
  | none => chunks

def newChunk (changeContext : Option Text) : UpdateFileChunk :=
  { changeContext, oldLines := [], newLines := [], isEndOfFile := false }

/-- The chunk a body line goes to: the last one, opened here when there is none. -/
def recordLine (f : UpdateFileChunk → UpdateFileChunk) (chunks : List UpdateFileChunk) :
    List UpdateFileChunk :=
  modifyLastChunk f (if chunks.isEmpty then chunks ++ [newChunk none] else chunks)

namespace StreamingPatchParser

variable (p : StreamingPatchParser)

def setMode (mode : StreamingParserMode) : StreamingPatchParser :=
  { p with state := { p.state with mode } }

/-- `self.state.hunks.push(hunk); self.state.mode = mode` -/
def pushHunk (hunk : Hunk) (mode : StreamingParserMode) : StreamingPatchParser :=
  { p with state := { p.state with hunks := p.state.hunks ++ [hunk], mode } }

/-- Overwrites the last hunk (`self.state.hunks.last_mut()`). -/
def setLastHunk (hunk : Hunk) : StreamingPatchParser :=
  { p with state := { p.state with hunks := p.state.hunks.dropLast ++ [hunk] } }

def ensureUpdateHunkIsNotEmpty (line : Text) : Except ParseError Unit :=
  match p.state.hunks.getLast? with
  | some (.updateFile path _ chunks) =>
    match chunks.isEmpty, p.state.mode with
    | true, .updateFile hunkLineNumber =>
      .error (.invalidHunkError ("Update file hunk for path '" ++ String.ofList path ++ "' is empty")
        hunkLineNumber)
    | _, _ =>
      if lastChunkIsEmpty chunks then
        if line = endPatchMarker then .error (.invalidHunkError noLinesMessage p.lineNumber)
        else .error (.invalidHunkError (unexpectedLineMessage line) p.lineNumber)
      else .ok ()
  | _ => .ok ()

/-- `Ok(true)` is `some` of the parser left behind, `Ok(false)` is `none`. -/
def handleHunkHeadersAndEndPatch (trimmed : Text) : Except ParseError (Option StreamingPatchParser) :=
  match p.state.mode, stripStart environmentIdMarker trimmed with
  | .startedPatch, some environmentId =>
    if p.state.environmentId.isSome then
      .error (.invalidPatchError "apply_patch environment_id cannot be specified more than once")
    else if (trim environmentId).isEmpty then
      .error (.invalidPatchError "apply_patch environment_id cannot be empty")
    else .ok (some { p with state := { p.state with environmentId := some (trim environmentId) } })
  | _, _ =>
    if trimmed = endPatchMarker then do
      p.ensureUpdateHunkIsNotEmpty trimmed
      return some (p.setMode .endedPatch)
    else match stripStart addFileMarker trimmed with
    | some path => do
      p.ensureUpdateHunkIsNotEmpty trimmed
      return some (p.pushHunk (.addFile path []) .addFile)
    | none => match stripStart deleteFileMarker trimmed with
    | some path => do
      p.ensureUpdateHunkIsNotEmpty trimmed
      return some (p.pushHunk (.deleteFile path) .deleteFile)
    | none => match stripStart updateFileMarker trimmed with
    | some path => do
      p.ensureUpdateHunkIsNotEmpty trimmed
      return some (p.pushHunk (.updateFile path none []) (.updateFile p.lineNumber))
    | none => .ok none

def invalidHunkHeader (trimmed : Text) : Except ParseError StreamingPatchParser :=
  .error (.invalidHunkError (hunkHeaderMessage trimmed) p.lineNumber)

/-- What an update hunk makes of a line that is no header: the hunk with the
line applied, or the message of the error. -/
def updateHunkLine (path : Text) (movePath : Option Text) (chunks : List UpdateFileChunk) (line : Text) :
    Except String Hunk :=
  let updateLine := trimEnd line
  let isContext := updateLine = emptyChangeContextMarker ∨ startsWith updateLine changeContextMarker
  if lastChunkIsEndOfFile chunks ∧ updateLine = [] then .ok (.updateFile path movePath chunks)
  else if lastChunkIsEndOfFile chunks ∧ ¬ isContext then .error (expectedContextMessage line)
  else match chunks.isEmpty && movePath.isNone, stripStart moveToMarker updateLine with
  | true, some moveToPath => .ok (.updateFile path (some moveToPath) chunks)
  | _, _ =>
    if isContext ∧ lastChunkIsEmpty chunks then .error (unexpectedLineMessage line)
    else if updateLine = emptyChangeContextMarker then
      .ok (.updateFile path movePath (chunks ++ [newChunk none]))
    else match stripStart changeContextMarker updateLine with
    | some changeContext => .ok (.updateFile path movePath (chunks ++ [newChunk (some changeContext)]))
    | none =>
      if updateLine = eofMarker then
        if lastChunkIsEmpty chunks then .error noLinesMessage
        else .ok (.updateFile path movePath (modifyLastChunk ({ · with isEndOfFile := true }) chunks))
      else match line with
      | [] => .ok (.updateFile path movePath (recordLine
          (fun c => { c with oldLines := c.oldLines ++ [[]], newLines := c.newLines ++ [[]] }) chunks))
      | ' ' :: lineToAdd => .ok (.updateFile path movePath (recordLine
          (fun c => { c with
            oldLines := c.oldLines ++ [lineToAdd], newLines := c.newLines ++ [lineToAdd] }) chunks))
      | '+' :: lineToAdd => .ok (.updateFile path movePath (recordLine
          (fun c => { c with newLines := c.newLines ++ [lineToAdd] }) chunks))
      | '-' :: lineToRemove => .ok (.updateFile path movePath (recordLine
          (fun c => { c with oldLines := c.oldLines ++ [lineToRemove] }) chunks))
      | _ =>
        if chunks.getLast?.any (fun c => !c.oldLines.isEmpty || !c.newLines.isEmpty) then
          .error (expectedContextMessage line)
        else .error (unexpectedLineMessage line)

def processLine (line : Text) : Except ParseError StreamingPatchParser :=
  let trimmed := trim line
  match p.state.mode with
  | .notStarted =>
    if trimmed = beginPatchMarker then .ok (p.setMode .startedPatch)
    else .error (.invalidPatchError firstLineMessage)
  | .startedPatch | .deleteFile => do
    match ← p.handleHunkHeadersAndEndPatch trimmed with
    | some p' => return p'
    | none => p.invalidHunkHeader trimmed
  | .addFile => do
    match ← p.handleHunkHeadersAndEndPatch trimmed with
    | some p' => return p'
    | none =>
      match line, p.state.hunks.getLast? with
      | '+' :: lineToAdd, some (.addFile path contents) =>
        return p.setLastHunk (.addFile path (contents ++ lineToAdd ++ ['\n']))
      | _, _ => p.invalidHunkHeader trimmed
  | .updateFile _ => do
    match ← p.handleHunkHeadersAndEndPatch (trimEnd line) with
    | some p' => return p'
    | none =>
      match p.state.hunks.getLast? with
      | some (.updateFile path movePath chunks) =>
        match updateHunkLine path movePath chunks line with
        | .ok hunk => return p.setLastHunk hunk
        | .error message => .error (.invalidHunkError message p.lineNumber)
      | _ => .error (.invalidHunkError (unexpectedLineMessage line) p.lineNumber)
  | .endedPatch =>
    if trimmed = [] then .ok p else .error (.invalidPatchError lastLineMessage)

/-- `std::mem::take(&mut self.line_buffer)` and `self.line_number += 1`. -/
def takeLine : StreamingPatchParser :=
  { p with lineBuffer := [], lineNumber := p.lineNumber + 1 }

/-- The body of `push_delta`'s loop. -/
def pushChar (ch : Char) : Except ParseError StreamingPatchParser :=
  if ch = '\n' then p.takeLine.processLine (stripCr p.lineBuffer)
  else .ok { p with lineBuffer := p.lineBuffer ++ [ch] }

def pushDelta (delta : Text) : Except ParseError StreamingPatchParser :=
  delta.foldlM pushChar p

/-- The unterminated last line `finish` finds in the buffer. -/
def finishLine (line : Text) : Except ParseError StreamingPatchParser :=
  if trim line = endPatchMarker then do
    p.ensureUpdateHunkIsNotEmpty (trim line)
    return p.setMode .endedPatch
  else p.processLine line

def finish : Except ParseError StreamingPatchParser := do
  let p' ← if p.lineBuffer.isEmpty then .ok p else p.takeLine.finishLine p.lineBuffer
  if p'.state.mode = .endedPatch then return p' else .error (.invalidPatchError lastLineMessage)

end StreamingPatchParser

open StreamingPatchParser

/-- A fresh parser fed `deltas` in order and finished: the hunks `finish`
returns and the environment id read afterwards. -/
def streamPatch (deltas : List Text) : Except ParseError (List Hunk × Option Text) := do
  let p ← deltas.foldlM pushDelta {}
  let p ← p.finish
  return (p.state.hunks, p.state.environmentId)

structure ApplyPatchArgs where
  patch : Text
  hunks : List Hunk
  workdir : Option Text
  environmentId : Option Text
  deriving DecidableEq, Repr

inductive ParseMode where
  | strict
  | lenient
  deriving DecidableEq, Repr

def checkStartAndEndLinesStrict (firstLine lastLine : Option Text) : Except ParseError Unit :=
  match firstLine.map trim, lastLine.map trim with
  | some first, some last =>
    if first = beginPatchMarker ∧ last = endPatchMarker then .ok ()
    else if first ≠ beginPatchMarker then .error (.invalidPatchError firstLineMessage)
    else .error (.invalidPatchError lastLineMessage)
  | some first, none =>
    if first ≠ beginPatchMarker then .error (.invalidPatchError firstLineMessage)
    else .error (.invalidPatchError lastLineMessage)
  | none, _ => .error (.invalidPatchError lastLineMessage)

def checkPatchBoundariesStrict (lines : List Text) : Except ParseError (List Text) := do
  checkStartAndEndLinesStrict lines.head? lines.getLast?
  return lines

/-- The heredoc wrapping `check_patch_boundaries_lenient` looks for. -/
def isHeredoc (lines : List Text) : Bool :=
  match lines.head?, lines.getLast? with
  | some first, some last =>
    (first = "<<EOF".toList || first = "<<'EOF'".toList || first = "<<\"EOF\"".toList) &&
      endsWith last "EOF".toList && 4 ≤ lines.length
  | _, _ => false

def checkPatchBoundariesLenient (originalLines : List Text) : Except ParseError (List Text) :=
  match checkPatchBoundariesStrict originalLines with
  | .ok lines => .ok lines
  | .error originalParseError =>
    if isHeredoc originalLines then checkPatchBoundariesStrict (originalLines.drop 1).dropLast
    else .error originalParseError

def parsePatchText (patch : Text) (mode : ParseMode) : Except ParseError ApplyPatchArgs := do
  let ls := lines (trim patch)
  let patchLines ← match mode with
    | .strict => checkPatchBoundariesStrict ls
    | .lenient => checkPatchBoundariesLenient ls
  let patch := joinLines patchLines
  let parser ← pushDelta {} patch
  let parser ← parser.finish
  return { patch, hunks := parser.state.hunks, workdir := none, environmentId := parser.state.environmentId }

/-- `PARSE_IN_STRICT_MODE` is `false`. -/
def parsePatch (patch : Text) : Except ParseError ApplyPatchArgs :=
  parsePatchText patch .lenient

end Codex.Patch
