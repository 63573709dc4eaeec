/-
Streamed bytes before they are text (`utils/stream-parser/src/utf8_stream.rs`). A
`Utf8StreamParser` hands a parser of text what of its bytes is whole characters and keeps
the start of a character for the next chunk (`collectBytes_eq`); bytes that cannot be UTF-8
take the chunk back out of the pending ones.

`fromUtf8` is `str::from_utf8`, with the offset and the length its error tells. Characters
are decoded by `ByteArray.utf8DecodeChar?`; `continuations` is the table of the standard library's
loop, for how much of a character that is none was its start.
-/
import Codex.Lib.PrefixCodes
import Codex.StreamTextFacts

namespace Codex.StreamText

open Text
open PrefixCodes

abbrev Bytes := List UInt8

/-! ## `str::from_utf8` -/

structure Utf8Error where
  validUpTo : Nat
  errorLen : Option Nat
  deriving DecidableEq, Repr

/-- The ranges of the bytes behind the first of a character, `none` where it begins none. -/
def continuations (first : UInt8) : Option (List (UInt8 × UInt8)) :=
  if first < 0x80 then some []
  else if first < 0xC2 then none
  else if first < 0xE0 then some [(0x80, 0xBF)]
  else if first = 0xE0 then some [(0xA0, 0xBF), (0x80, 0xBF)]
  else if first = 0xED then some [(0x80, 0x9F), (0x80, 0xBF)]
  else if first < 0xF0 then some [(0x80, 0xBF), (0x80, 0xBF)]
  else if first = 0xF0 then some [(0x90, 0xBF), (0x80, 0xBF), (0x80, 0xBF)]
  else if first < 0xF4 then some [(0x80, 0xBF), (0x80, 0xBF), (0x80, 0xBF)]
  else if first = 0xF4 then some [(0x80, 0x8F), (0x80, 0xBF), (0x80, 0xBF)]
  else none

/-- How many bytes there are up to the first that is out of its range, if the bytes do not end before. -/
def brokenAfter : List (UInt8 × UInt8) → Bytes → Nat → Option Nat
  | (low, high) :: ranges, byte :: bytes, seen =>
    if low ≤ byte ∧ byte ≤ high then brokenAfter ranges bytes (seen + 1) else some seen
  | _, _, _ => none

/-- `error_len` of bytes that begin with no character. -/
def errorLen (first : UInt8) (bytes : Bytes) : Option Nat :=
  match continuations first with
  | some ranges => brokenAfter ranges bytes 1
  | none => some 1

/-- The loop of the validation at `index`, where `skip` bytes of a character are still to go. -/
def validate (index : Nat) : Nat → Bytes → Except Utf8Error Text
  | _, [] => .ok []
  | skip + 1, _ :: bytes => validate (index + 1) skip bytes
  | 0, first :: bytes =>
    match (first :: bytes).toByteArray.utf8DecodeChar? 0 with
    | some ch => (validate (index + 1) (ch.utf8Size - 1) bytes).map (ch :: ·)
    | none => .error { validUpTo := index, errorLen := errorLen first bytes }

def fromUtf8 (bytes : Bytes) : Except Utf8Error Text := validate 0 0 bytes

/-! ## Characters -/

abbrev InRange (range : UInt8 × UInt8) (byte : UInt8) : Prop := range.1 ≤ byte ∧ byte ≤ range.2

variable {n : Nat} {bytes : Bytes} (index : Nat) (text : Text)

theorem inRange_ofNat (low high : UInt8) (hlow : low.toNat ≤ n) (hhigh : n ≤ high.toNat) :
    InRange (low, high) (UInt8.ofNat n) := by
  have hlt := high.toNat_lt
  have hn : (UInt8.ofNat n).toNat = n := by
    rw [UInt8.toNat_ofNat']
    omega
  exact ⟨UInt8.le_iff_toNat_le.2 (hn.symm ▸ hlow), UInt8.le_iff_toNat_le.2 (hn.symm ▸ hhigh)⟩

theorem inRange_tail (v : Nat) : InRange (0x80, 0xBF) (UInt8.ofNat (v % 0x40 + 0x80)) :=
  inRange_ofNat 0x80 0xBF (show 128 ≤ _ by omega) (show _ ≤ 191 by omega)

theorem continuations_two (hlow : 0xC2 ≤ n) (hhigh : n < 0xE0) :
    continuations (UInt8.ofNat n) = some [(0x80, 0xBF)] := by
  simp only [continuations, UInt8.lt_iff_toNat_lt, UInt8.toNat_ofNat', UInt8.reduceToNat]
  rw [if_neg (by omega), if_neg (by omega), if_pos (by omega)]

theorem continuations_three (hlow : 0xE1 ≤ n) (hhigh : n < 0xF0) (hne : n ≠ 0xED) :
    continuations (UInt8.ofNat n) = some [(0x80, 0xBF), (0x80, 0xBF)] := by
  simp only [continuations, UInt8.lt_iff_toNat_lt, ← UInt8.toNat_inj, UInt8.toNat_ofNat', UInt8.reduceToNat]
  rw [if_neg (by omega), if_neg (by omega), if_neg (by omega), if_neg (by omega), if_neg (by omega), if_pos (by omega)]

theorem continuations_four (hlow : 0xF1 ≤ n) (hhigh : n < 0xF4) :
    continuations (UInt8.ofNat n) = some [(0x80, 0xBF), (0x80, 0xBF), (0x80, 0xBF)] := by
  simp only [continuations, UInt8.lt_iff_toNat_lt, ← UInt8.toNat_inj, UInt8.toNat_ofNat', UInt8.reduceToNat]
  rw [if_neg (by omega), if_neg (by omega), if_neg (by omega), if_neg (by omega), if_neg (by omega), if_neg (by omega),
    if_neg (by omega), if_pos (by omega)]

/-- Of the characters of three bytes the second byte is bounded for the first ones and for those before the surrogates. -/
theorem inRange_three {v : Nat} (hlow : 0x800 ≤ v) (hhigh : v ≤ 0xffff) (hsurrogate : v < 0xd800 ∨ 0xdfff < v) :
    ∃ range, continuations (UInt8.ofNat (v / 4096 % 0x10 + 0xe0)) = some [range, (0x80, 0xBF)] ∧
      InRange range (UInt8.ofNat (v / 64 % 0x40 + 0x80)) := by
  rcases Nat.lt_or_ge v 0x1000 with hfirst | hfirst
  · rw [show v / 4096 % 0x10 + 0xe0 = 0xe0 by omega]
    exact ⟨(0xA0, 0xBF), rfl, inRange_ofNat 0xA0 0xBF (show 160 ≤ _ by omega) (show _ ≤ 191 by omega)⟩
  by_cases hlast : 0xd000 ≤ v ∧ v < 0xd800
  · rw [show v / 4096 % 0x10 + 0xe0 = 0xed by omega]
    exact ⟨(0x80, 0x9F), rfl, inRange_ofNat 0x80 0x9F (show 128 ≤ _ by omega) (show _ ≤ 159 by omega)⟩
  · exact ⟨(0x80, 0xBF), continuations_three (by omega) (by omega) (by omega), inRange_tail _⟩

/-- And of those of four bytes for the first ones and the last. -/
theorem inRange_four {v : Nat} (hlow : 0x10000 ≤ v) (hhigh : v < 0x110000) :
    ∃ range, continuations (UInt8.ofNat (v / 262144 % 0x08 + 0xf0)) = some [range, (0x80, 0xBF), (0x80, 0xBF)] ∧
      InRange range (UInt8.ofNat (v / 4096 % 0x40 + 0x80)) := by
  rcases Nat.lt_or_ge v 0x40000 with hfirst | hfirst
  · rw [show v / 262144 % 0x08 + 0xf0 = 0xf0 by omega]
    exact ⟨(0x90, 0xBF), rfl, inRange_ofNat 0x90 0xBF (show 144 ≤ _ by omega) (show _ ≤ 191 by omega)⟩
  rcases Nat.lt_or_ge v 0x100000 with hmiddle | hlast
  · exact ⟨(0x80, 0xBF), continuations_four (by omega) (by omega), inRange_tail _⟩
  · rw [show v / 262144 % 0x08 + 0xf0 = 0xf4 by omega]
    exact ⟨(0x80, 0x8F), rfl, inRange_ofNat 0x80 0x8F (show 128 ≤ _ by omega) (show _ ≤ 143 by omega)⟩

theorem utf8EncodeChar_continuations (ch : Char) : ∃ first bytes ranges, String.utf8EncodeChar ch = first :: bytes ∧
    continuations first = some ranges ∧ List.Forall₂ InRange ranges bytes := by
  have hvalid : ch.val.toNat < 0xd800 ∨ 0xdfff < ch.val.toNat ∧ ch.val.toNat < 0x110000 := ch.valid
  unfold String.utf8EncodeChar
  generalize ch.val.toNat = v at hvalid
  dsimp only
  split
  next h1 =>
    refine ⟨_, _, [], rfl, ?_, .nil⟩
    simp only [continuations, UInt8.lt_iff_toNat_lt, UInt8.toNat_ofNat', UInt8.reduceToNat]
    exact if_pos (by omega)
  next h1 =>
  split
  next h2 => exact ⟨_, _, _, rfl, continuations_two (by omega) (by omega), .cons (inRange_tail _) .nil⟩
  next h2 =>
  split
  next h3 =>
    obtain ⟨range, hranges, hin⟩ := inRange_three (by omega) h3 (hvalid.imp_right And.left)
    exact ⟨_, _, _, rfl, hranges, .cons hin (.cons (inRange_tail _) .nil)⟩
  next h3 =>
    obtain ⟨range, hranges, hin⟩ := @inRange_four v (by omega) (by omega)
    exact ⟨_, _, _, rfl, hranges, .cons hin (.cons (inRange_tail _) (.cons (inRange_tail _) .nil))⟩

theorem brokenAfter_of_inRange {ranges more}
    (h : List.Forall₂ InRange ranges (bytes ++ more)) (seen : Nat) :
    brokenAfter ranges bytes seen = none := by
  induction bytes generalizing ranges seen with
  | nil => cases ranges <;> rfl
  | cons byte bytes ih =>
    cases h with
    | cons hrange h =>
      rw [brokenAfter, if_pos hrange]
      exact ih h (seen + 1)

/-- The start of a character is no character, and nothing is wrong with it. -/
theorem errorLen_start {ch : Char} {first} (h : first :: bytes <+: String.utf8EncodeChar ch) :
    errorLen first bytes = none := by
  obtain ⟨first', bytes', ranges, hencode, hranges, hin⟩ := utf8EncodeChar_continuations ch
  rw [hencode] at h
  obtain ⟨rfl, more, rfl⟩ := List.cons_prefix_cons.1 h
  rw [errorLen, hranges]
  exact brokenAfter_of_inRange hin 1

theorem decodeChar_append (ch : Char) (bytes : Bytes) :
    (String.utf8EncodeChar ch ++ bytes).toByteArray.utf8DecodeChar? 0 = some ch := by
  rw [List.toByteArray_append, ← List.utf8Encode_singleton, List.utf8DecodeChar?_utf8Encode_singleton_append]

theorem decodeChar_start {ch : Char} (h : bytes <+: String.utf8EncodeChar ch)
    (hlt : bytes.length < (String.utf8EncodeChar ch).length) : bytes.toByteArray.utf8DecodeChar? 0 = none := by
  obtain ⟨more, hmore⟩ := h
  cases hdecode : bytes.toByteArray.utf8DecodeChar? 0 with
  | none => rfl
  | some found =>
    have hsame := ByteArray.utf8DecodeChar?_append_eq_some hdecode more.toByteArray
    rw [← List.toByteArray_append, hmore, ← List.append_nil (String.utf8EncodeChar ch), decodeChar_append] at hsame
    obtain rfl := Option.some.inj hsame
    have hle := ByteArray.le_size_of_utf8DecodeChar?_eq_some hdecode
    rw [String.length_utf8EncodeChar] at hlt
    rw [List.size_toByteArray] at hle
    omega

theorem validate_skip (skipped bytes : Bytes) :
    validate index skipped.length (skipped ++ bytes) = validate (index + skipped.length) 0 bytes := by
  induction skipped generalizing index with
  | nil => rfl
  | cons byte skipped ih =>
    rw [List.length_cons, List.cons_append, validate, ih, Nat.add_assoc, Nat.add_comm 1]

/-- A round of the loop on a character. -/
theorem validate_char (ch : Char) (bytes : Bytes) : validate index 0 (String.utf8EncodeChar ch ++ bytes) =
      (validate (index + (String.utf8EncodeChar ch).length) 0 bytes).map (ch :: ·) := by
  have hdecode := decodeChar_append ch bytes
  have hlength := String.length_utf8EncodeChar ch
  generalize String.utf8EncodeChar ch = encoded at hdecode hlength
  cases encoded with
  | nil =>
    have hpos := ch.utf8Size_pos
    rw [List.length_nil] at hlength
    omega
  | cons first rest =>
    rw [List.length_cons] at hlength
    rw [List.cons_append] at hdecode ⊢
    rw [validate, hdecode]
    dsimp only
    rw [← hlength, Nat.add_sub_cancel, List.length_cons, validate_skip, Nat.add_assoc, Nat.add_comm 1]

theorem validate_text (bytes : Bytes) : validate index 0 (text.flatMap String.utf8EncodeChar ++ bytes) =
      (validate (index + (text.flatMap String.utf8EncodeChar).length) 0 bytes).map (text ++ ·) := by
  induction text generalizing index with
  | nil =>
    cases h : validate index 0 bytes <;> simp [h, Except.map]
  | cons ch text ih =>
    rw [List.flatMap_cons, List.append_assoc, validate_char, ih, List.length_append, ← Nat.add_assoc]
    cases validate (index + (String.utf8EncodeChar ch).length + (text.flatMap String.utf8EncodeChar).length) 0 bytes <;> rfl

theorem fromUtf8_text : fromUtf8 (text.flatMap String.utf8EncodeChar) = .ok text := by
  have h := validate_text 0 text []
  rw [List.append_nil] at h
  rw [fromUtf8, h, validate]
  simp [Except.map]

/-- **Text and the start of a character** is text up to that start, and not wrong. -/
theorem fromUtf8_start {ch : Char} (hne : bytes ≠ []) (h : bytes <+: String.utf8EncodeChar ch)
    (hlt : bytes.length < (String.utf8EncodeChar ch).length) :
    fromUtf8 (text.flatMap String.utf8EncodeChar ++ bytes) =
      .error { validUpTo := (text.flatMap String.utf8EncodeChar).length, errorLen := none } := by
  obtain ⟨first, bytes, rfl⟩ := List.exists_cons_of_ne_nil hne
  rw [fromUtf8, validate_text, validate, decodeChar_start h hlt, errorLen_start h, Nat.zero_add]
  rfl

/-! ## The parser -/

/-- The trait of the parsers of streamed text. -/
class StreamTextParser (P : Type) (E : outParam Type) where
  pushStr : P → Text → P × StreamTextChunk E
  finish : P → P × StreamTextChunk E

inductive Utf8StreamParserError where
  | invalidUtf8 (validUpTo errorLen : Nat)
  | incompleteUtf8AtEof
  deriving DecidableEq, Repr

structure Utf8StreamParser (P : Type) where
  inner : P
  pendingUtf8 : Bytes := []

namespace Utf8StreamParser

variable {P E : Type} [StreamTextParser P E]

/-- A failed push truncates the pending bytes to what they were. -/
def pushBytes (parser : Utf8StreamParser P) (chunk : Bytes) :
    Utf8StreamParser P × Except Utf8StreamParserError (StreamTextChunk E) :=
  let oldLen := parser.pendingUtf8.length
  let pending := parser.pendingUtf8 ++ chunk
  match fromUtf8 pending with
  | .ok text =>
    let (inner, out) := StreamTextParser.pushStr parser.inner text
    ({ inner, pendingUtf8 := [] }, .ok out)
  | .error err =>
    match err.errorLen with
    | some errorLen =>
      ({ parser with pendingUtf8 := pending.take oldLen }, .error (.invalidUtf8 err.validUpTo errorLen))
    | none =>
      if err.validUpTo = 0 then ({ parser with pendingUtf8 := pending }, .ok {})
      else match fromUtf8 (pending.take err.validUpTo) with
      | .ok text =>
        let (inner, out) := StreamTextParser.pushStr parser.inner text
        ({ inner, pendingUtf8 := pending.drop err.validUpTo }, .ok out)
      | .error prefixErr =>
        ({ parser with pendingUtf8 := pending.take oldLen },
          .error (.invalidUtf8 prefixErr.validUpTo (prefixErr.errorLen.getD 0)))

/-- The check of `finish` and `into_inner`. -/
def pendingError (pending : Bytes) : Option Utf8StreamParserError :=
  if pending = [] then none
  else match fromUtf8 pending with
  | .ok _ => none
  | .error err =>
    match err.errorLen with
    | some errorLen => some (.invalidUtf8 err.validUpTo errorLen)
    | none => some .incompleteUtf8AtEof

/-- The pending bytes that are text go to the inner parser. -/
def flush (parser : Utf8StreamParser P) : Except Utf8StreamParserError (Utf8StreamParser P × StreamTextChunk E) :=
  if parser.pendingUtf8 = [] then .ok (parser, {})
  else match fromUtf8 parser.pendingUtf8 with
  | .ok text =>
    let (inner, out) := StreamTextParser.pushStr parser.inner text
    .ok ({ inner, pendingUtf8 := [] }, out)
  | .error err => .error (.invalidUtf8 err.validUpTo (err.errorLen.getD 0))

def finish (parser : Utf8StreamParser P) : Utf8StreamParser P × Except Utf8StreamParserError (StreamTextChunk E) :=
  match pendingError parser.pendingUtf8 with
  | some err => (parser, .error err)
  | none =>
    match parser.flush with
    | .error err => (parser, .error err)
    | .ok (flushed, out) =>
      let (inner, tail) := StreamTextParser.finish flushed.inner
      ({ flushed with inner }, .ok (out.append tail))

def intoInner (parser : Utf8StreamParser P) : Except Utf8StreamParserError P :=
  match pendingError parser.pendingUtf8 with
  | some err => .error err
  | none => .ok parser.inner

/-- `collect_bytes`: chunks pushed one after the other, and the end; `all` is the output before them. -/
def collectBytes (parser : Utf8StreamParser P) (all : StreamTextChunk E) :
    List Bytes → Utf8StreamParser P × Except Utf8StreamParserError (StreamTextChunk E)
  | [] =>
    let (parser, tail) := parser.finish
    (parser, tail.map all.append)
  | chunk :: chunks =>
    match parser.pushBytes chunk with
    | (parser, .ok next) => collectBytes parser (all.append next) chunks
    | (parser, .error err) => (parser, .error err)

/-! ## Chunks -/

/-- **A failed push** leaves the parser as it was. -/
theorem pushBytes_error {parser : Utf8StreamParser P} {chunk : Bytes} {err : Utf8StreamParserError}
    (h : (parser.pushBytes chunk).2 = .error err) : (parser.pushBytes chunk).1 = parser := by
  have hold : (parser.pendingUtf8 ++ chunk).take parser.pendingUtf8.length = parser.pendingUtf8 := List.take_left
  revert h
  unfold pushBytes
  dsimp only
  rw [hold]
  split
  · intro h
    cases h
  split
  · exact fun _ => rfl
  split
  · intro h
    cases h
  split
  · intro h
    cases h
  · exact fun _ => rfl

/-- **A push** of bytes that continue to a text: the inner parser gets its whole characters, if there are any, and the
start of the next is pending. -/
theorem pushBytes_eq {parser : Utf8StreamParser P} {chunk more : Bytes} {text : Text}
    (h : parser.pendingUtf8 ++ chunk ++ more = text.flatMap String.utf8EncodeChar) :
    ∃ before after rest, text = before ++ after ∧ rest ++ more = after.flatMap String.utf8EncodeChar ∧
      (parser.pushBytes chunk =
          ({ inner := (StreamTextParser.pushStr parser.inner before).1, pendingUtf8 := rest },
            .ok (StreamTextParser.pushStr parser.inner before).2) ∨
        before = [] ∧ parser.pushBytes chunk = ({ parser with pendingUtf8 := rest }, .ok {})) := by
  obtain ⟨before, after, rest, rfl, hpending, hrest⟩ := exists_partial ⟨more, h⟩
  refine ⟨before, after, rest, rfl, ?_, ?_⟩
  · rw [hpending, List.flatMap_append, List.append_assoc] at h
    exact List.append_cancel_left h
  unfold pushBytes
  dsimp only
  rw [hpending]
  by_cases hnil : rest = []
  · rw [hnil, List.append_nil, fromUtf8_text]
    exact .inl rfl
  · obtain ⟨ch, hstart, hlt⟩ := hrest.resolve_left hnil
    rw [fromUtf8_start before hnil hstart hlt]
    dsimp only
    cases before with
    | nil => exact .inr ⟨rfl, rfl⟩
    | cons c before =>
      rw [if_neg, List.take_left, fromUtf8_text, List.drop_left]
      · exact .inl rfl
      · rw [List.length_eq_zero_iff, List.flatMap_cons, List.append_eq_nil_iff]
        exact fun hempty => String.utf8EncodeChar_ne_nil hempty.1

/-- The same for a text in pieces, given to the inner parser itself. -/
def collectText (inner : P) (all : StreamTextChunk E) : List Text → P × StreamTextChunk E
  | [] => ((StreamTextParser.finish inner).1, all.append (StreamTextParser.finish inner).2)
  | piece :: pieces =>
    collectText (StreamTextParser.pushStr inner piece).1 (all.append (StreamTextParser.pushStr inner piece).2) pieces

theorem finish_eq {parser : Utf8StreamParser P} {text : Text} (h : parser.pendingUtf8 = text.flatMap String.utf8EncodeChar)
    (all : StreamTextChunk E) : ∃ pieces, pieces.flatten = text ∧ parser.collectBytes all [] =
      ({ inner := (collectText parser.inner all pieces).1, pendingUtf8 := [] }, .ok (collectText parser.inner all pieces).2) := by
  unfold collectBytes finish pendingError flush
  cases text with
  | nil =>
    have hnil : parser.pendingUtf8 = [] := h
    refine ⟨[], rfl, ?_⟩
    rw [if_pos hnil, if_pos hnil]
    dsimp only
    rw [StreamTextChunk.empty_append, hnil]
    rfl
  | cons ch text =>
    have hne : parser.pendingUtf8 ≠ [] := by
      rw [h, List.flatMap_cons, ne_eq, List.append_eq_nil_iff]
      exact fun hempty => String.utf8EncodeChar_ne_nil hempty.1
    refine ⟨[ch :: text], by rw [List.flatten_cons, List.flatten_nil, List.append_nil], ?_⟩
    rw [if_neg hne, if_neg hne, h, fromUtf8_text]
    simp only [collectText, StreamTextChunk.append_assoc]
    rfl

theorem collectBytes_eq {parser : Utf8StreamParser P} {chunks : List Bytes} {text : Text}
    (h : parser.pendingUtf8 ++ chunks.flatten = text.flatMap String.utf8EncodeChar) (all : StreamTextChunk E) :
    ∃ pieces, pieces.flatten = text ∧ parser.collectBytes all chunks =
      ({ inner := (collectText parser.inner all pieces).1, pendingUtf8 := [] }, .ok (collectText parser.inner all pieces).2) := by
  induction chunks generalizing parser text all with
  | nil =>
    rw [List.flatten_nil, List.append_nil] at h
    exact finish_eq h all
  | cons chunk chunks ih =>
    rw [List.flatten_cons, ← List.append_assoc] at h
    obtain ⟨before, after, rest, rfl, hafter, hpush | ⟨rfl, hpush⟩⟩ := pushBytes_eq h
    · obtain ⟨pieces, rfl, hrun⟩ := @ih { inner := (StreamTextParser.pushStr parser.inner before).1, pendingUtf8 := rest }
        after hafter (all.append (StreamTextParser.pushStr parser.inner before).2)
      refine ⟨before :: pieces, List.flatten_cons, ?_⟩
      rw [collectBytes, hpush]
      exact hrun
    · obtain ⟨pieces, rfl, hrun⟩ := @ih { parser with pendingUtf8 := rest } after hafter all
      refine ⟨pieces, rfl, ?_⟩
      rw [collectBytes, hpush]
      dsimp only
      rw [StreamTextChunk.append_empty]
      exact hrun

/-- **Cutting the bytes changes nothing**, and a push that fails changes neither the pending bytes nor the inner
parser. -/
theorem chunks_transparent (inner : P) (text : Text) (chunks : List Bytes)
    (h : chunks.flatten = text.flatMap String.utf8EncodeChar) :
    (∃ pieces, pieces.flatten = text ∧
      collectBytes { inner } {} chunks =
        ({ inner := (collectText inner {} pieces).1, pendingUtf8 := [] }, .ok (collectText inner {} pieces).2) ∧
      (collectBytes { inner } {} chunks).1.intoInner = .ok (collectText inner {} pieces).1) ∧
    ∀ (parser : Utf8StreamParser P) (chunk : Bytes) (err : Utf8StreamParserError),
      (parser.pushBytes chunk).2 = .error err → (parser.pushBytes chunk).1 = parser := by
  refine ⟨?_, fun parser chunk err => pushBytes_error⟩
  obtain ⟨pieces, hpieces, hrun⟩ := @collectBytes_eq P E _ { inner } chunks text h {}
  exact ⟨pieces, hpieces, hrun, by rw [hrun]; rfl⟩

end Utf8StreamParser

instance : StreamTextParser CitationStreamParser Text where
  pushStr := CitationStreamParser.pushStr
  finish := CitationStreamParser.finish

/-- An accented letter cut in two, and a byte that does not go on with its start. -/
theorem chunks_transparent_citation :
    (∃ pieces : List Text, pieces.flatten = ['A', 'é'] ∧
      ((Utf8StreamParser.collectBytes { inner := ({} : CitationStreamParser) } {} [[65, 0xC3], [0xA9]]).1).intoInner =
        .ok (Utf8StreamParser.collectText ({} : CitationStreamParser) {} pieces).1) ∧
    (Utf8StreamParser.pushBytes { inner := ({} : CitationStreamParser), pendingUtf8 := [0xC3] } [0x28]).1 =
      { inner := {}, pendingUtf8 := [0xC3] } := by
  obtain ⟨⟨pieces, hpieces, -, hinner⟩, hfailed⟩ :=
    Utf8StreamParser.chunks_transparent ({} : CitationStreamParser) ['A', 'é'] [[65, 0xC3], [0xA9]] (by decide)
  exact ⟨⟨pieces, hpieces, hinner⟩, hfailed _ _ (.invalidUtf8 0 1) rfl⟩

end Codex.StreamText
