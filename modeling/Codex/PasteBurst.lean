/-
The paste detector of the composer, `PasteBurst`, and what the composer does with
its decisions. The composer's text has no elements, and its cursor stays at the end,
so that the text before it is the whole text. A paste is read as an insertion of the pasted text;
the slash popup is told by the event that depends on it. Times are in nanoseconds,
and `Instant::duration_since` is 0 where the other time is the later one.

Source: tui/src/bottom_pane/paste_burst.rs, chat_composer.rs
(`handle_input_basic_with_time`, `handle_non_ascii_char`,
`handle_submission_with_time`, `handle_paste_burst_flush`, `handle_paste`),
textarea.rs (`input_with_keymap`).
-/
import Codex.Text
import Codex.Lib.Runs

namespace Codex.Burst

def fromMillis (n : Nat) : Nat := n * 1000000

def pasteBurstMinChars : Nat := 3

def pasteEnterSuppressWindow : Nat := fromMillis 120

def pasteBurstCharInterval : Nat := fromMillis 8

structure PasteBurst where
  lastPlainCharTime : Option Nat := none
  consecutivePlainCharBurst : Nat := 0
  burstWindowUntil : Option Nat := none
  buffer : Text := []
  active : Bool := false
  pendingFirstChar : Option (Char × Nat) := none
  deriving DecidableEq

inductive CharDecision where
  | beginBuffer (retroChars : Nat)
  | bufferAppend
  | retainFirstChar
  | beginBufferFromPending
  deriving DecidableEq

structure RetroGrab where
  start : Nat
  grabbed : Text

inductive FlushResult where
  | paste (pasted : Text)
  | typed (ch : Char)
  | none

namespace PasteBurst

variable (b : PasteBurst)

def isActiveInternal : Bool := b.active || b.buffer ≠ []

def isActive : Bool := b.isActiveInternal || b.pendingFirstChar.isSome

/-- The count is a `u16` and saturates. -/
def notePlainChar (now : Nat) : PasteBurst :=
  { b with
    consecutivePlainCharBurst :=
      if b.lastPlainCharTime.any fun prev => now - prev ≤ pasteBurstCharInterval then
        min (b.consecutivePlainCharBurst + 1) 65535
      else 1
    lastPlainCharTime := some now }

def extendWindow (now : Nat) : PasteBurst := { b with burstWindowUntil := some (now + pasteEnterSuppressWindow) }

def onPlainChar (ch : Char) (now : Nat) : CharDecision × PasteBurst :=
  let b := b.notePlainChar now
  if b.active then (.bufferAppend, b.extendWindow now)
  else
    match b.pendingFirstChar.filter fun held => now - held.2 ≤ pasteBurstCharInterval with
    | some (held, _) =>
      (.beginBufferFromPending,
        { b with active := true, pendingFirstChar := none, buffer := b.buffer ++ [held] }.extendWindow now)
    | none =>
      if b.consecutivePlainCharBurst ≥ pasteBurstMinChars then (.beginBuffer (b.consecutivePlainCharBurst - 1), b)
      else (.retainFirstChar, { b with pendingFirstChar := some (ch, now) })

def onPlainCharNoHold (now : Nat) : Option CharDecision × PasteBurst :=
  let b := b.notePlainChar now
  if b.active then (some .bufferAppend, b.extendWindow now)
  else if b.consecutivePlainCharBurst ≥ pasteBurstMinChars then
    (some (.beginBuffer (b.consecutivePlainCharBurst - 1)), b)
  else (none, b)

/-- `idleTimeout` is `PASTE_BURST_ACTIVE_IDLE_TIMEOUT`, which depends on the platform. -/
def flushIfDue (idleTimeout now : Nat) : FlushResult × PasteBurst :=
  let timeout := if b.isActiveInternal then idleTimeout else pasteBurstCharInterval
  let timedOut := b.lastPlainCharTime.any fun t => now - t > timeout
  if timedOut && b.isActiveInternal then (.paste b.buffer, { b with active := false, buffer := [] })
  else if timedOut then
    match b.pendingFirstChar with
    | some (ch, _) => (.typed ch, { b with pendingFirstChar := none })
    | none => (.none, b)
  else (.none, b)

def appendNewlineIfActive (now : Nat) : Option PasteBurst :=
  if b.isActive then some ({ b with buffer := b.buffer ++ ['\n'] }.extendWindow now) else none

def newlineShouldInsertInsteadOfSubmit (now : Nat) : Bool :=
  b.isActive || b.burstWindowUntil.any fun limit => now ≤ limit

def beginWithRetroGrabbed (grabbed : Text) (now : Nat) : PasteBurst :=
  { b with buffer := b.buffer ++ grabbed, active := true }.extendWindow now

def appendCharToBuffer (ch : Char) (now : Nat) : PasteBurst := { b with buffer := b.buffer ++ [ch] }.extendWindow now

def tryAppendCharIfActive (ch : Char) (now : Nat) : Option PasteBurst :=
  if b.isActiveInternal then some (b.appendCharToBuffer ch now) else none

/-- Where the last `retroChars` characters start. -/
def retroStartIndex (before : Text) (retroChars : Nat) : Nat := before.length - retroChars

def decideBeginBuffer (now : Nat) (before : Text) (retroChars : Nat) : Option (RetroGrab × PasteBurst) :=
  let start := retroStartIndex before retroChars
  let grabbed := before.drop start
  let looksPastey := grabbed.any Text.isWhitespace || grabbed.length ≥ 16
  if looksPastey then some ({ start, grabbed }, b.beginWithRetroGrabbed grabbed now) else none

def flushBeforeModifiedInput : Option (Text × PasteBurst) :=
  if b.isActive then
    some (b.buffer ++ (b.pendingFirstChar.map Prod.fst).toList,
      { b with active := false, buffer := [], pendingFirstChar := none })
  else none

def clearWindowAfterNonChar : PasteBurst :=
  { b with
    consecutivePlainCharBurst := 0, lastPlainCharTime := none, burstWindowUntil := none, active := false
    pendingFirstChar := none }

def clearAfterExplicitPaste (_ : PasteBurst) : PasteBurst := {}

end PasteBurst

/-- `submitted` is set when Enter is not part of a burst; what follows is not modelled. -/
structure Composer where
  text : Text
  isBashMode : Bool := false
  burst : PasteBurst := {}
  slashCommandsEnabled : Bool := true
  submitted : Bool := false

/-- `other` is a key that is no character and neither edits the text nor moves the cursor. -/
inductive Key where
  | char (ch : Char)
  | enter
  | other

inductive Event where
  | key (key : Key) (now : Nat)
  | submit (shouldQueue commandPopup : Bool) (now : Nat)
  | tick (now : Nat)

namespace Composer

variable (c : Composer)

def currentText : Text := if c.isBashMode then '!' :: c.text else c.text

def syncBashModeFromText : Composer :=
  if ! c.isBashMode && c.text.head? = some '!' then { c with text := c.text.drop 1, isBashMode := true } else c

def insertStr (text : Text) : Composer := { c with text := c.text ++ text }.syncBashModeFromText

def handlePaste (pasted : Text) : Composer :=
  let c := c.insertStr pasted
  { c with burst := c.burst.clearAfterExplicitPaste }

def isAsciiControl (ch : Char) : Bool := ch.toNat < 32 || ch.toNat = 127

/-- `TextArea::input` with the default keymap. -/
def input (key : Key) : Composer :=
  match key with
  | .char ch => if isAsciiControl ch then c else { c with text := c.text ++ [ch] }
  | .enter => { c with text := c.text ++ ['\n'] }
  | .other => c

def handlePasteBurstFlush (idleTimeout now : Nat) : Composer :=
  match c.burst.flushIfDue idleTimeout now with
  | (.paste pasted, burst) => { c with burst }.handlePaste pasted
  | (.typed ch, burst) => { c with burst }.insertStr [ch]
  | (.none, burst) => { c with burst }

def flushBeforeModifiedInput : Composer :=
  match c.burst.flushBeforeModifiedInput with
  | some (pasted, burst) => { c with burst }.handlePaste pasted
  | none => c

/-- What both paths do on `BeginBuffer`; `none` is to insert the character. -/
def beginBuffer (ch : Char) (now retroChars : Nat) : Option Composer :=
  match c.burst.decideBeginBuffer now c.text retroChars with
  | some (grab, burst) => some { c with text := c.text.take grab.start, burst := burst.appendCharToBuffer ch now }
  | none => none

def handleNonAsciiChar (ch : Char) (now : Nat) : Composer :=
  match c.burst.tryAppendCharIfActive ch now with
  | some burst => { c with burst }
  | none =>
    let c := c.flushBeforeModifiedInput
    let (decision, burst) := c.burst.onPlainCharNoHold now
    let c := { c with burst }
    match decision with
    | some .bufferAppend => { c with burst := c.burst.appendCharToBuffer ch now }
    | some (.beginBuffer retroChars) =>
      (c.beginBuffer ch now retroChars).getD (c.flushBeforeModifiedInput.input (.char ch))
    | _ => c.flushBeforeModifiedInput.input (.char ch)

def handleAsciiChar (ch : Char) (now : Nat) : Composer :=
  let (decision, burst) := c.burst.onPlainChar ch now
  let c := { c with burst }
  match decision with
  | .bufferAppend | .beginBufferFromPending => { c with burst := c.burst.appendCharToBuffer ch now }
  | .retainFirstChar => c
  | .beginBuffer retroChars =>
    (c.beginBuffer ch now retroChars).getD (c.flushBeforeModifiedInput.input (.char ch)).syncBashModeFromText

def handleInputBasicWithTime (idleTimeout : Nat) (key : Key) (now : Nat) : Composer :=
  let c := c.handlePasteBurstFlush idleTimeout now
  match key with
  | .enter =>
    match c.burst.appendNewlineIfActive now with
    | some burst => { c with burst }
    | none => (c.input .enter).syncBashModeFromText
  | .char ch => if ch.toNat < 128 then c.handleAsciiChar ch now else c.handleNonAsciiChar ch now
  | .other =>
    let c := (c.flushBeforeModifiedInput.input .other).syncBashModeFromText
    { c with burst := c.burst.clearWindowAfterNonChar }

def inSlashContext (commandPopup : Bool) : Bool :=
  c.slashCommandsEnabled && ! c.isBashMode && (commandPopup || ((Text.lines c.text).head?.getD []).startsWith ['/'])

def handleSubmissionWithTime (shouldQueue commandPopup : Bool) (now : Nat) : Composer :=
  if shouldQueue || c.inSlashContext commandPopup then { c with submitted := true }
  else
    match c.burst.appendNewlineIfActive now with
    | some burst => { c with burst }
    | none =>
      if c.burst.newlineShouldInsertInsteadOfSubmit now then
        { c with text := c.text ++ ['\n'], burst := c.burst.extendWindow now }
      else { c with submitted := true }

def step (idleTimeout : Nat) (c : Composer) (event : Event) : Composer :=
  if c.submitted then c
  else
    match event with
    | .key key now => c.handleInputBasicWithTime idleTimeout key now
    | .submit shouldQueue commandPopup now => c.handleSubmissionWithTime shouldQueue commandPopup now
    | .tick now => c.handlePasteBurstFlush idleTimeout now

end Composer

end Codex.Burst
