/-
Typed text comes out complete and in order, as long as no Enter comes while a
first character is held (`typedInOrder_along`). What the composer has typed is its
text, then the burst's buffer, then the held character (`content`), and every
event adds what it types at the end of it.

Source: tui/src/bottom_pane/paste_burst.rs, chat_composer.rs.
-/
import Codex.PasteBurst

namespace Codex.Burst

namespace PasteBurst

/-- A buffer is being filled, or it is empty; a held character is the last one that came, and nothing is being filled. -/
structure Ordered (b : PasteBurst) : Prop where
  buffering : b.buffer ≠ [] → b.active = true
  held : ∀ ch t, b.pendingFirstChar = some (ch, t) → b.active = false ∧ b.lastPlainCharTime = some t

/-- What the burst keeps from the text. -/
def kept (b : PasteBurst) : Text := b.buffer ++ (b.pendingFirstChar.map Prod.fst).toList

def HoldsNothing (b : PasteBurst) : Prop := b.buffer = [] ∧ b.pendingFirstChar = none

variable {b : PasteBurst}

theorem HoldsNothing.kept (h : b.HoldsNothing) : b.kept = [] := by
  rw [PasteBurst.kept, h.1, h.2]
  rfl

theorem HoldsNothing.ordered (h : b.HoldsNothing) : b.Ordered where
  buffering := fun hne => absurd h.1 hne
  held := by
    intro ch t hpending
    rw [h.2] at hpending
    cases hpending

theorem kept_of_not_pending (h : b.pendingFirstChar = none) : b.kept = b.buffer := by
  rw [kept, h]
  exact List.append_nil _

namespace Ordered

theorem buffer_of_not_active (h : b.Ordered) (hactive : b.active = false) : b.buffer = [] := by
  by_contra hne
  rw [h.buffering hne] at hactive
  cases hactive

theorem pending_of_active (h : b.Ordered) (hactive : b.active = true) : b.pendingFirstChar = none := by
  cases hpending : b.pendingFirstChar with
  | none => rfl
  | some held =>
    rw [(h.held held.1 held.2 hpending).1] at hactive
    cases hactive

theorem isActiveInternal_eq (h : b.Ordered) : b.isActiveInternal = b.active := by
  unfold isActiveInternal
  cases hactive : b.active with
  | true => rfl
  | false =>
    rw [h.buffer_of_not_active hactive]
    rfl

end Ordered

/-- A burst that is being filled, which keeps no character apart. -/
structure Filling (b : PasteBurst) : Prop where
  active : b.active = true
  noPending : b.pendingFirstChar = none

theorem Filling.ordered (h : b.Filling) : b.Ordered where
  buffering := fun _ => h.active
  held := by
    intro ch t hpending
    rw [h.noPending] at hpending
    cases hpending

/-- What comes to a burst that is filled comes at its end. -/
theorem Filling.append (h : b.Filling) (ch : Char) (now : Nat) :
    (b.appendCharToBuffer ch now).Filling ∧ (b.appendCharToBuffer ch now).kept = b.kept ++ [ch] := by
  refine ⟨⟨h.active, h.noPending⟩, ?_⟩
  rw [kept_of_not_pending h.noPending, kept_of_not_pending (b := b.appendCharToBuffer ch now) h.noPending]
  rfl

theorem appendNewlineIfActive_eq (b : PasteBurst) (now : Nat) :
    b.appendNewlineIfActive now = if b.isActive then some (b.appendCharToBuffer '\n' now) else none := rfl

/-! ## What each operation keeps -/

/-- The burst is in order, and the character it holds, if any, came at most the interval ago. -/
structure Current (b : PasteBurst) (now : Nat) : Prop extends b.Ordered where
  recent : ∀ ch t, b.pendingFirstChar = some (ch, t) → now - t ≤ pasteBurstCharInterval

variable {now : Nat} {b' : PasteBurst}

/-- What is due is all that the burst keeps. -/
theorem Ordered.flushIfDue (h : b.Ordered) {idleTimeout : Nat} {result}
    (hflush : b.flushIfDue idleTimeout now = (result, b')) :
    result = .paste b.kept ∨ (∃ ch, result = .typed ch ∧ b.kept = [ch] ∧ b'.HoldsNothing) ∨
      result = .none ∧ b' = b ∧ b.Current now := by
  unfold PasteBurst.flushIfDue at hflush
  rw [h.isActiveInternal_eq] at hflush
  dsimp only at hflush
  cases hactive : b.active with
  | true =>
    have hpending := h.pending_of_active hactive
    rw [hactive, Bool.and_true, if_pos rfl] at hflush
    split at hflush
    next =>
      obtain ⟨rfl, rfl⟩ := Prod.mk.inj hflush
      exact .inl (by rw [kept_of_not_pending hpending])
    next =>
      obtain ⟨rfl, rfl⟩ := Prod.mk.inj hflush
      refine .inr (.inr ⟨rfl, rfl, h, ?_⟩)
      intro ch t hheld
      rw [hpending] at hheld
      cases hheld
  | false =>
    have hbuffer := h.buffer_of_not_active hactive
    rw [hactive, Bool.and_false, if_neg Bool.false_ne_true, if_neg Bool.false_ne_true] at hflush
    split at hflush
    next =>
      split at hflush
      next ch t hpending =>
        obtain ⟨rfl, rfl⟩ := Prod.mk.inj hflush
        refine .inr (.inl ⟨ch, rfl, ?_, hbuffer, rfl⟩)
        rw [kept, hbuffer, hpending]
        rfl
      next hpending =>
        obtain ⟨rfl, rfl⟩ := Prod.mk.inj hflush
        refine .inr (.inr ⟨rfl, rfl, h, ?_⟩)
        intro ch t hheld
        rw [hpending] at hheld
        cases hheld
    next hdue =>
      obtain ⟨rfl, rfl⟩ := Prod.mk.inj hflush
      refine .inr (.inr ⟨rfl, rfl, h, ?_⟩)
      intro ch t hheld
      rw [(h.held ch t hheld).2] at hdue
      simpa using hdue

/-- The three ways a character key is decided. -/
theorem Current.onPlainChar (h : b.Current now) (ch : Char) {decision}
    (hdecide : b.onPlainChar ch now = (decision, b')) :
    (decision = .bufferAppend ∨ decision = .beginBufferFromPending) ∧ b'.Filling ∧ b'.kept = b.kept ∨
      decision = .retainFirstChar ∧ b'.Ordered ∧ b'.kept = b.kept ++ [ch] ∨
      ∃ retroChars, decision = .beginBuffer retroChars ∧ b'.HoldsNothing ∧ b.HoldsNothing := by
  unfold PasteBurst.onPlainChar at hdecide
  dsimp only at hdecide
  split at hdecide
  next hactive =>
    have hpending := h.pending_of_active hactive
    obtain ⟨rfl, rfl⟩ := Prod.mk.inj hdecide
    refine .inl ⟨.inl rfl, ⟨hactive, hpending⟩, ?_⟩
    rfl
  next hactive =>
    have hbuffer := h.buffer_of_not_active (Bool.eq_false_iff.2 hactive)
    cases hpending : b.pendingFirstChar with
    | some held =>
      obtain ⟨held, t⟩ := held
      have hfilter : (b.notePlainChar now).pendingFirstChar.filter
          (fun held => decide (now - held.2 ≤ pasteBurstCharInterval)) = some (held, t) := by
        show b.pendingFirstChar.filter _ = _
        rw [hpending]
        exact Option.filter_some_pos (by simpa using h.recent held t hpending)
      rw [hfilter] at hdecide
      obtain ⟨rfl, rfl⟩ := Prod.mk.inj hdecide
      refine .inl ⟨.inr rfl, ⟨rfl, rfl⟩, ?_⟩
      rw [kept_of_not_pending rfl, kept, hpending]
      rfl
    | none =>
      have hfilter : (b.notePlainChar now).pendingFirstChar.filter
          (fun held => decide (now - held.2 ≤ pasteBurstCharInterval)) = none := by
        show b.pendingFirstChar.filter _ = _
        rw [hpending]
        rfl
      rw [hfilter] at hdecide
      dsimp only at hdecide
      split at hdecide
      · obtain ⟨rfl, rfl⟩ := Prod.mk.inj hdecide
        exact .inr (.inr ⟨_, rfl, ⟨hbuffer, hpending⟩, hbuffer, hpending⟩)
      · obtain ⟨rfl, rfl⟩ := Prod.mk.inj hdecide
        refine .inr (.inl ⟨rfl, ⟨fun hne => absurd hbuffer hne, ?_⟩, ?_⟩)
        · intro ch' t hheld
          obtain ⟨rfl, rfl⟩ := Prod.mk.inj (Option.some.inj hheld)
          exact ⟨Bool.eq_false_iff.2 hactive, rfl⟩
        · rw [kept_of_not_pending hpending, hbuffer]
          show b.buffer ++ [ch] = _
          rw [hbuffer]

/-- With nothing held, a character key that is not held starts a buffer or is inserted. -/
theorem HoldsNothing.onPlainCharNoHold (h : b.HoldsNothing) {decision}
    (hactive : b.active = false) (hdecide : b.onPlainCharNoHold now = (decision, b')) :
    b'.HoldsNothing ∧ (decision = none ∨ ∃ retroChars, decision = some (.beginBuffer retroChars)) := by
  unfold PasteBurst.onPlainCharNoHold at hdecide
  rw [if_neg (by simp [notePlainChar, hactive])] at hdecide
  split at hdecide
  · obtain ⟨rfl, rfl⟩ := Prod.mk.inj hdecide
    exact ⟨h, .inr ⟨_, rfl⟩⟩
  · obtain ⟨rfl, rfl⟩ := Prod.mk.inj hdecide
    exact ⟨h, .inl rfl⟩

end PasteBurst

open PasteBurst

namespace Composer

variable {c : Composer}

/-- All that is typed: the text, and what the burst keeps from it. -/
def content (c : Composer) : Text := c.currentText ++ c.burst.kept

theorem content_of_holdsNothing (h : c.burst.HoldsNothing) : c.content = c.currentText := by
  rw [content, h.kept, List.append_nil]

theorem currentText_syncBashModeFromText (c : Composer) : c.syncBashModeFromText.currentText = c.currentText := by
  unfold syncBashModeFromText
  split
  next hsync =>
    rw [Bool.and_eq_true, Bool.not_eq_true', decide_eq_true_eq] at hsync
    obtain ⟨hbash, hhead⟩ := hsync
    obtain ⟨rest, htext⟩ := List.head?_eq_some_iff.1 hhead
    simp [currentText, hbash, htext]
  next => rfl

theorem burst_syncBashModeFromText (c : Composer) : c.syncBashModeFromText.burst = c.burst := by
  unfold syncBashModeFromText
  split <;> rfl

theorem currentText_append (c : Composer) (text : Text) :
    ({ c with text := c.text ++ text } : Composer).currentText = c.currentText ++ text := by
  unfold currentText
  split <;> rfl

theorem currentText_insertStr (c : Composer) (text : Text) : (c.insertStr text).currentText = c.currentText ++ text := by
  rw [insertStr, currentText_syncBashModeFromText, currentText_append]

theorem burst_insertStr (c : Composer) (text : Text) : (c.insertStr text).burst = c.burst := by
  rw [insertStr, burst_syncBashModeFromText]

theorem currentText_handlePaste (c : Composer) (pasted : Text) :
    (c.handlePaste pasted).currentText = c.currentText ++ pasted := currentText_insertStr c pasted

/-- A step that keeps the burst in order and puts what was typed at the end. -/
structure Adds (c c' : Composer) (typed : Text) : Prop where
  ordered : c'.burst.Ordered
  content : c'.content = c.content ++ typed

variable {c' : Composer} {ch : Char} {now idleTimeout : Nat}

theorem content_insert {text : Text} (hcurrent : c'.currentText = c.currentText ++ text)
    (hnothing : c'.burst.HoldsNothing) : c'.content = c.currentText ++ text := by
  rw [content_of_holdsNothing hnothing, hcurrent]

theorem holdsNothing_empty : HoldsNothing {} := ⟨rfl, rfl⟩

/-- What is due is flushed to the end of the text. -/
theorem handlePasteBurstFlush_spec (h : c.burst.Ordered) (idleTimeout now : Nat) :
    (c.handlePasteBurstFlush idleTimeout now).burst.Current now ∧
      (c.handlePasteBurstFlush idleTimeout now).content = c.content ∧
      ∀ held, (c.handlePasteBurstFlush idleTimeout now).burst.pendingFirstChar = some held →
        c.burst.pendingFirstChar = some held := by
  have hcurrent : ∀ {b : PasteBurst}, b.HoldsNothing → b.Current now := by
    intro b hnothing
    refine ⟨hnothing.ordered, ?_⟩
    intro ch t hheld
    rw [hnothing.2] at hheld
    cases hheld
  have hnone : ∀ {b : PasteBurst}, b.HoldsNothing → ∀ held, b.pendingFirstChar = some held →
      c.burst.pendingFirstChar = some held := by
    intro b hnothing held hheld
    rw [hnothing.2] at hheld
    cases hheld
  unfold handlePasteBurstFlush
  split
  next pasted burst hflush =>
    obtain hpaste | ⟨ch, htyped, -, -⟩ | ⟨hnone, -, -⟩ := h.flushIfDue hflush
    · cases hpaste
      exact ⟨hcurrent holdsNothing_empty, content_insert (currentText_handlePaste _ _) holdsNothing_empty,
        hnone holdsNothing_empty⟩
    · cases htyped
    · cases hnone
  next ch burst hflush =>
    obtain hpaste | ⟨ch', htyped, hkept, hnothing⟩ | ⟨hnone, -, -⟩ := h.flushIfDue hflush
    · cases hpaste
    · cases htyped
      have hnothing' : ({ c with burst }.insertStr [ch]).burst.HoldsNothing := by
        rw [burst_insertStr]
        exact hnothing
      refine ⟨hcurrent hnothing', (content_insert (currentText_insertStr _ _) hnothing').trans ?_, hnone hnothing'⟩
      rw [content, hkept]
      rfl
    · cases hnone
  next burst hflush =>
    obtain hpaste | ⟨ch, htyped, -, -⟩ | ⟨-, rfl, hnow⟩ := h.flushIfDue hflush
    · cases hpaste
    · cases htyped
    · exact ⟨hnow, rfl, fun _ hheld => hheld⟩

theorem flushBeforeModifiedInput_spec (h : c.burst.Ordered) :
    c.flushBeforeModifiedInput.burst.HoldsNothing ∧ c.flushBeforeModifiedInput.burst.active = false ∧
      c.flushBeforeModifiedInput.currentText = c.content := by
  unfold flushBeforeModifiedInput PasteBurst.flushBeforeModifiedInput
  cases hactive : c.burst.isActive with
  | true => exact ⟨holdsNothing_empty, rfl, currentText_handlePaste _ _⟩
  | false =>
    unfold PasteBurst.isActive at hactive
    rw [Bool.or_eq_false_iff, h.isActiveInternal_eq] at hactive
    obtain ⟨hnot, hpending⟩ := hactive
    have hnothing : c.burst.HoldsNothing := ⟨h.buffer_of_not_active hnot, by simpa using hpending⟩
    exact ⟨hnothing, hnot, (content_of_holdsNothing hnothing).symm⟩

theorem insert_adds (h : c.burst.HoldsNothing) (text : Text) : Adds c { c with text := c.text ++ text } text := by
  refine ⟨h.ordered, ?_⟩
  rw [content_of_holdsNothing (c := { c with text := c.text ++ text }) h, content_of_holdsNothing h, currentText_append]

theorem Adds.sync {typed : Text} (h : Adds c c' typed) : Adds c c'.syncBashModeFromText typed := by
  have hsame : c'.syncBashModeFromText.content = c'.content := by
    rw [Composer.content, currentText_syncBashModeFromText, burst_syncBashModeFromText]
    rfl
  exact ⟨burst_syncBashModeFromText c' ▸ h.ordered, hsame.trans h.content⟩

/-- What is added after a step that keeps the content is added to what was there before it. -/
theorem Adds.of_content {c₁} {typed : Text} (h : Adds c₁ c' typed) (hsame : c₁.content = c.content) :
    Adds c c' typed := ⟨h.ordered, hsame ▸ h.content⟩

/-- A character that the text area takes comes at the end of the text. -/
theorem input_char_adds (h : c.burst.Ordered) (hplain : isAsciiControl ch = false) :
    Adds c (c.flushBeforeModifiedInput.input (.char ch)) [ch] := by
  obtain ⟨hnothing, -, hcurrent⟩ := flushBeforeModifiedInput_spec h
  rw [input, hplain, if_neg Bool.false_ne_true]
  exact (insert_adds hnothing [ch]).of_content ((content_of_holdsNothing hnothing).trans hcurrent)

/-- A grab takes the end of the text into the buffer. -/
theorem beginBuffer_spec (h : c.burst.HoldsNothing) {retroChars : Nat}
    (hbegin : c.beginBuffer ch now retroChars = some c') : Adds c c' [ch] := by
  unfold beginBuffer at hbegin
  split at hbegin
  next grab burst hdecide =>
    unfold PasteBurst.decideBeginBuffer at hdecide
    dsimp only at hdecide
    split at hdecide
    · cases hdecide
      cases hbegin
      have hfilling : (c.burst.beginWithRetroGrabbed (c.text.drop (retroStartIndex c.text retroChars)) now).Filling :=
        ⟨rfl, h.2⟩
      obtain ⟨hfilling', hkept⟩ := hfilling.append ch now
      refine ⟨hfilling'.ordered, ?_⟩
      rw [content, hkept, kept_of_not_pending hfilling.noPending, content_of_holdsNothing h, ← List.append_assoc]
      rw [PasteBurst.beginWithRetroGrabbed, PasteBurst.extendWindow, h.1, List.nil_append,
        ← currentText_append]
      rw [List.take_append_drop]
      rfl
    · cases hdecide
  next => cases hbegin

theorem handleAsciiChar_spec (h : c.burst.Current now) (hplain : isAsciiControl ch = false) :
    Adds c (c.handleAsciiChar ch now) [ch] := by
  unfold handleAsciiChar
  cases hdecide : c.burst.onPlainChar ch now with
  | mk decision burst =>
    obtain ⟨hdecision, hfilling, hkept⟩ | ⟨rfl, hordered, hkept⟩ | ⟨retroChars, rfl, hnothing, hbefore⟩ :=
      h.onPlainChar ch hdecide
    · obtain ⟨hfilling', hkept'⟩ := hfilling.append ch now
      have hadds : Adds c { c with burst := burst.appendCharToBuffer ch now } [ch] := by
        refine ⟨hfilling'.ordered, ?_⟩
        rw [content, hkept', hkept, ← List.append_assoc]
        rfl
      rcases hdecision with rfl | rfl <;> exact hadds
    · refine ⟨hordered, ?_⟩
      rw [content, hkept, ← List.append_assoc]
      rfl
    · have hsame : ({ c with burst } : Composer).content = c.content := by
        rw [content_of_holdsNothing hnothing, content_of_holdsNothing hbefore]
        rfl
      dsimp only
      cases hbegin : ({ c with burst } : Composer).beginBuffer ch now retroChars with
      | some c' => exact (beginBuffer_spec hnothing hbegin).of_content hsame
      | none => exact (input_char_adds hnothing.ordered hplain).sync.of_content hsame

theorem handleNonAsciiChar_spec (h : c.burst.Ordered) (hplain : isAsciiControl ch = false) :
    Adds c (c.handleNonAsciiChar ch now) [ch] := by
  unfold handleNonAsciiChar PasteBurst.tryAppendCharIfActive
  rw [h.isActiveInternal_eq]
  split
  next burst happend =>
    split at happend
    next hactive =>
      cases happend
      obtain ⟨hfilling, hkept⟩ := Filling.append ⟨hactive, h.pending_of_active hactive⟩ ch now
      refine ⟨hfilling.ordered, ?_⟩
      rw [content, hkept, ← List.append_assoc]
      rfl
    next => cases happend
  next =>
    obtain ⟨hbefore, hactive, hcurrent⟩ := flushBeforeModifiedInput_spec h
    dsimp only
    obtain ⟨hnothing, hdecision⟩ :=
      hbefore.onPlainCharNoHold hactive (Prod.eta (c.flushBeforeModifiedInput.burst.onPlainCharNoHold now)).symm
    generalize c.flushBeforeModifiedInput.burst.onPlainCharNoHold now = decided at hnothing hdecision ⊢
    have hsame : ({ c.flushBeforeModifiedInput with burst := decided.2 } : Composer).content = c.content := by
      rw [content_of_holdsNothing hnothing, ← hcurrent]
      rfl
    have hinserted := (input_char_adds (c := { c.flushBeforeModifiedInput with burst := decided.2 }) hnothing.ordered
      hplain).of_content hsame
    rcases hdecision with hnone | ⟨retroChars, hbegin⟩
    · rw [hnone]
      exact hinserted
    · rw [hbegin]
      dsimp only
      cases hbegun : ({ c.flushBeforeModifiedInput with burst := decided.2 } : Composer).beginBuffer ch now retroChars with
      | some c' =>
        exact (beginBuffer_spec hnothing hbegun).of_content hsame
      | none => exact hinserted

/-! ## The run -/

def typed : Event → Text
  | .key (.char ch) _ => [ch]
  | .key .enter _ | .submit .. => ['\n']
  | .key .other _ | .tick _ => []

/-- No Enter comes while a first character is held: on the basic path it may be one that is due. -/
def InOrder (c : Composer) : Event → Prop
  | .key (.char ch) _ => isAsciiControl ch = false
  | .key .enter now => ∀ ch t, c.burst.pendingFirstChar = some (ch, t) → now - t > pasteBurstCharInterval
  | .submit shouldQueue commandPopup _ =>
    shouldQueue = false → c.inSlashContext commandPopup = false → c.burst.pendingFirstChar = none
  | .key .other _ | .tick _ => True

/-- An Enter that is part of the burst comes at its end. -/
theorem appendNewline_spec (h : c.burst.Ordered) (hpending : c.burst.pendingFirstChar = none) (now : Nat) :
    (∃ burst, c.burst.appendNewlineIfActive now = some burst ∧ Adds c { c with burst } ['\n']) ∨
      c.burst.appendNewlineIfActive now = none ∧ c.burst.HoldsNothing := by
  rw [appendNewlineIfActive_eq, PasteBurst.isActive, h.isActiveInternal_eq, hpending]
  cases hactive : c.burst.active with
  | true =>
    obtain ⟨hfilling, hkept⟩ := Filling.append ⟨hactive, hpending⟩ '\n' now
    refine .inl ⟨_, rfl, hfilling.ordered, ?_⟩
    rw [content, hkept, ← List.append_assoc]
    rfl
  | false => exact .inr ⟨rfl, h.buffer_of_not_active hactive, hpending⟩

theorem handleInputBasicWithTime_spec (h : c.burst.Ordered) {key : Key}
    (horder : c.InOrder (.key key now)) : Adds c (c.handleInputBasicWithTime idleTimeout key now) (typed (.key key now)) := by
  obtain ⟨hcurrent, hsame, hheld⟩ := handlePasteBurstFlush_spec h idleTimeout now
  unfold handleInputBasicWithTime
  dsimp only
  cases key with
  | char ch =>
    have hplain : isAsciiControl ch = false := horder
    dsimp only
    split
    · exact (handleAsciiChar_spec hcurrent hplain).of_content hsame
    · exact (handleNonAsciiChar_spec hcurrent.toOrdered hplain).of_content hsame
  | enter =>
    have hpending : (c.handlePasteBurstFlush idleTimeout now).burst.pendingFirstChar = none := by
      cases hpending : (c.handlePasteBurstFlush idleTimeout now).burst.pendingFirstChar with
      | none => rfl
      | some held =>
        have hrecent := hcurrent.recent held.1 held.2 hpending
        have hlate := horder held.1 held.2 (hheld held hpending)
        omega
    rcases appendNewline_spec hcurrent.toOrdered hpending now with ⟨burst, happend, hadds⟩ | ⟨happend, hnothing⟩
    · rw [happend]
      exact hadds.of_content hsame
    · rw [happend]
      exact (insert_adds hnothing ['\n']).sync.of_content hsame
  | other =>
    obtain ⟨hnothing, -, htext⟩ := flushBeforeModifiedInput_spec hcurrent.toOrdered
    rw [burst_syncBashModeFromText]
    have hcleared : HoldsNothing
        (c.handlePasteBurstFlush idleTimeout now).flushBeforeModifiedInput.burst.clearWindowAfterNonChar := ⟨hnothing.1, rfl⟩
    refine ⟨hcleared.ordered, ?_⟩
    rw [content_of_holdsNothing (by exact hcleared), ← hsame, ← htext, typed, List.append_nil]
    exact currentText_syncBashModeFromText _

theorem handleSubmissionWithTime_spec (h : c.burst.Ordered) {shouldQueue commandPopup : Bool}
    (horder : c.InOrder (.submit shouldQueue commandPopup now))
    (hsubmitted : (c.handleSubmissionWithTime shouldQueue commandPopup now).submitted = false) :
    Adds c (c.handleSubmissionWithTime shouldQueue commandPopup now) ['\n'] := by
  unfold handleSubmissionWithTime at hsubmitted ⊢
  split at hsubmitted
  next => cases hsubmitted
  next hburst =>
    rw [if_neg hburst]
    rw [Bool.or_eq_true, not_or, Bool.not_eq_true, Bool.not_eq_true] at hburst
    rcases appendNewline_spec h (horder hburst.1 hburst.2) now with ⟨burst, happend, hadds⟩ | ⟨happend, hnothing⟩
    · rw [happend]
      exact hadds
    · rw [happend] at hsubmitted ⊢
      dsimp only at hsubmitted ⊢
      split at hsubmitted
      next hinsert =>
        rw [if_pos hinsert]
        obtain ⟨-, hcontent⟩ := insert_adds hnothing ['\n']
        have hextended : (c.burst.extendWindow now).HoldsNothing := hnothing
        exact ⟨hextended.ordered, hcontent⟩
      next => cases hsubmitted

theorem step_adds (h : c.burst.Ordered) {event} (horder : c.InOrder event)
    (hsubmitted : (step idleTimeout c event).submitted = false) :
    Adds c (step idleTimeout c event) (typed event) := by
  unfold step at hsubmitted ⊢
  split at hsubmitted
  next hbefore => rw [hbefore] at hsubmitted; cases hsubmitted
  next hbefore =>
    rw [if_neg hbefore]
    cases event with
    | key key now => exact handleInputBasicWithTime_spec h horder
    | submit shouldQueue commandPopup now => exact handleSubmissionWithTime_spec h horder hsubmitted
    | tick now =>
      obtain ⟨hcurrent, hsame, -⟩ := handlePasteBurstFlush_spec h idleTimeout now
      exact ⟨hcurrent.toOrdered, by rw [typed, List.append_nil]; exact hsame⟩

theorem run_submitted (h : c.submitted = true) (events : List Event) :
    Runs.run (step idleTimeout) c events = c := by
  induction events with
  | nil => rfl
  | cons event events ih =>
    have hstep : step idleTimeout c event = c := if_pos h
    rw [Runs.run_cons, hstep, ih]

theorem run_adds (h : c.burst.Ordered) {events} (halong : Runs.Along (step idleTimeout) InOrder c events)
    (hsubmitted : (Runs.run (step idleTimeout) c events).submitted = false) :
    Adds c (Runs.run (step idleTimeout) c events) (events.flatMap typed) := by
  induction events generalizing c with
  | nil => exact ⟨h, (List.append_nil _).symm⟩
  | cons event events ih =>
    obtain ⟨horder, halong⟩ := halong
    rw [Runs.run_cons] at hsubmitted ⊢
    have hfirst : (step idleTimeout c event).submitted = false := by
      by_contra hne
      rw [Bool.not_eq_false] at hne
      rw [run_submitted hne, hne] at hsubmitted
      cases hsubmitted
    have hstep := step_adds h horder hfirst
    obtain ⟨hordered, hcontent⟩ := ih hstep.ordered halong hsubmitted
    refine ⟨hordered, ?_⟩
    rw [hcontent, hstep.content, List.flatMap_cons, List.append_assoc]

/-- While nothing is submitted, a burst that holds nothing has left all that was typed in the text, in order. -/
def TypedInOrder (idleTimeout : Nat) (c : Composer) (events : List Event) : Prop :=
  (Runs.run (step idleTimeout) c events).submitted = false → (Runs.run (step idleTimeout) c events).burst.HoldsNothing →
    (Runs.run (step idleTimeout) c events).currentText = c.currentText ++ events.flatMap typed

/-- **Typed text is complete and in order** in every run in which no Enter comes while a first character is held. -/
theorem typedInOrder_along {idleTimeout : Nat} {events : List Event} (h : c.burst.HoldsNothing)
    (halong : Runs.Along (step idleTimeout) InOrder c events) : TypedInOrder idleTimeout c events := by
  intro hsubmitted hnothing
  have hadds := (run_adds h.ordered halong hsubmitted).content
  rwa [content_of_holdsNothing hnothing, content_of_holdsNothing h] at hadds

/-! ## The held character -/

/-- `a`, Enter after 1 ms and a tick after 20 ms leave a newline alone. -/
theorem not_typedInOrder_held : ¬ TypedInOrder (fromMillis 8) { text := [] }
    [.key (.char 'a') 0, .key .enter (fromMillis 1), .tick (fromMillis 20)] := by
  intro h
  have htext := h (by decide) ⟨by decide, by decide⟩
  exact absurd htext (by decide)

theorem typedInOrder_paste : TypedInOrder (fromMillis 8) { text := "x".toList }
    [.key (.char 'h') 0, .key (.char 'i') (fromMillis 1), .key .enter (fromMillis 2), .key (.char 'é') (fromMillis 3),
      .submit false false (fromMillis 4), .tick (fromMillis 20)] :=
  typedInOrder_along ⟨rfl, rfl⟩ ⟨rfl, rfl, fun _ _ hheld => absurd hheld (Option.some_ne_none _).symm, rfl,
    fun _ _ => rfl, trivial, trivial⟩


end Composer

end Codex.Burst
