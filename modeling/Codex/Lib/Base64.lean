/-
Base64 with the standard alphabet and padding: three bytes are four symbols,
and the last one or two bytes are padded to four.

The decoder takes canonical text only: padded, and with no bits left over in
the last symbol. It reads back what the encoder writes (`decode_encode`).
-/
import Mathlib.Tactic.Common

namespace Base64

def alphabet : List Char := "ABCDEFGHIJKLMNOPQRSTUVWXYZabcdefghijklmnopqrstuvwxyz0123456789+/".toList

def symbol (n : Nat) : Char := alphabet.getD n '='

def value (c : Char) : Option Nat := alphabet.idxOf? c

def encode : List UInt8 → List Char
  | [] => []
  | [a] => [symbol (a.toNat / 4), symbol (a.toNat % 4 * 16), '=', '=']
  | [a, b] => [symbol (a.toNat / 4), symbol (a.toNat % 4 * 16 + b.toNat / 16), symbol (b.toNat % 16 * 4), '=']
  | a :: b :: c :: rest =>
    symbol (a.toNat / 4) :: symbol (a.toNat % 4 * 16 + b.toNat / 16) ::
      symbol (b.toNat % 16 * 4 + c.toNat / 64) :: symbol (c.toNat % 64) :: encode rest

/-- Four symbols, none of them padding. -/
def decodeQuad (p q r s : Char) : Option (List UInt8) := do
  let p ← value p
  let q ← value q
  let r ← value r
  let s ← value s
  return [UInt8.ofNat (p * 4 + q / 16), UInt8.ofNat (q % 16 * 16 + r / 4), UInt8.ofNat (r % 4 * 64 + s)]

/-- The last four symbols. -/
def decodeLast (p q r s : Char) : Option (List UInt8) :=
  if s ≠ '=' then decodeQuad p q r s
  else if r ≠ '=' then do
    let p ← value p
    let q ← value q
    let r ← value r
    if r % 4 = 0 then return [UInt8.ofNat (p * 4 + q / 16), UInt8.ofNat (q % 16 * 16 + r / 4)] else none
  else do
    let p ← value p
    let q ← value q
    if q % 16 = 0 then return [UInt8.ofNat (p * 4 + q / 16)] else none

def decode : List Char → Option (List UInt8)
  | [] => some []
  | [p, q, r, s] => decodeLast p q r s
  | p :: q :: r :: s :: rest => do return (← decodeQuad p q r s) ++ (← decode rest)
  | _ => none

/-- A bound on the number of bytes a text decodes to. -/
def decodedLenEstimate (encodedLen : Nat) : Nat := (encodedLen + 3) / 4 * 3

/-! ## Reading back -/

theorem value_symbol {n : Nat} (h : n < 64) : value (symbol n) = some n :=
  (by decide +kernel : ∀ n : Fin 64, value (symbol n) = some n.val) ⟨n, h⟩

theorem symbol_ne_padding {n : Nat} (h : n < 64) : symbol n ≠ '=' :=
  (by decide +kernel : ∀ n : Fin 64, symbol n ≠ '=') ⟨n, h⟩

theorem ofNat_eq {n : Nat} {a} (h : n = a.toNat) : UInt8.ofNat n = a := by rw [h, UInt8.ofNat_toNat]

theorem decodeQuad_encode (a b c : UInt8) :
    decodeQuad (symbol (a.toNat / 4)) (symbol (a.toNat % 4 * 16 + b.toNat / 16))
      (symbol (b.toNat % 16 * 4 + c.toNat / 64)) (symbol (c.toNat % 64)) = some [a, b, c] := by
  have ha := a.toNat_lt
  have hb := b.toNat_lt
  have hc := c.toNat_lt
  unfold decodeQuad
  rw [value_symbol (by omega), value_symbol (by omega), value_symbol (by omega), value_symbol (by omega)]
  show some [_, _, _] = some [a, b, c]
  rw [ofNat_eq (a := a) (by omega), ofNat_eq (a := b) (by omega), ofNat_eq (a := c) (by omega)]

theorem decodeLast_of_ne {p q r s : Char} (h : s ≠ '=') : decodeLast p q r s = decodeQuad p q r s := if_pos h

theorem encode_ne_nil {bytes} (h : bytes ≠ []) : encode bytes ≠ [] := by
  match bytes, h with
  | [_], _ => simp [encode]
  | [_, _], _ => simp [encode]
  | _ :: _ :: _ :: _, _ => simp [encode]

theorem decode_cons {p q r s : Char} {rest} (h : rest ≠ []) :
    decode (p :: q :: r :: s :: rest) = do return (← decodeQuad p q r s) ++ (← decode rest) := by
  match rest, h with
  | _ :: _, _ => rfl

/-- **What the encoder writes is read back.** -/
theorem decode_encode : ∀ bytes : List UInt8, decode (encode bytes) = some bytes
  | [] => rfl
  | [a] => by
    have ha := a.toNat_lt
    show decodeLast _ _ _ _ = _
    unfold decodeLast
    rw [if_neg (by simp), if_neg (by simp), value_symbol (by omega), value_symbol (by omega)]
    show (if _ then _ else _) = _
    rw [if_pos (by omega)]
    show some [_] = some [a]
    rw [ofNat_eq (a := a) (by omega)]
  | [a, b] => by
    have ha := a.toNat_lt
    have hb := b.toNat_lt
    show decodeLast _ _ _ _ = _
    unfold decodeLast
    rw [if_neg (by simp), if_pos (symbol_ne_padding (by omega)), value_symbol (by omega), value_symbol (by omega),
      value_symbol (by omega)]
    show (if _ then _ else _) = _
    rw [if_pos (by omega)]
    show some [_, _] = some [a, b]
    rw [ofNat_eq (a := a) (by omega), ofNat_eq (a := b) (by omega)]
  | [a, b, c] => by
    have hc := c.toNat_lt
    show decodeLast _ _ _ _ = _
    rw [decodeLast_of_ne (symbol_ne_padding (by omega)), decodeQuad_encode]
  | a :: b :: c :: d :: rest => by
    rw [encode, decode_cons (encode_ne_nil (by simp)), decodeQuad_encode, decode_encode (d :: rest)]
    rfl

theorem length_encode : ∀ bytes : List UInt8, (encode bytes).length = (bytes.length + 2) / 3 * 4
  | [] => rfl
  | [_] => by simp [encode]
  | [_, _] => by simp [encode]
  | a :: b :: c :: rest => by
    rw [encode, List.length_cons, List.length_cons, List.length_cons, List.length_cons, length_encode rest]
    simp only [List.length_cons]
    omega

theorem length_le_estimate (bytes : List UInt8) : bytes.length ≤ decodedLenEstimate (encode bytes).length := by
  rw [length_encode, decodedLenEstimate]
  omega

end Base64
