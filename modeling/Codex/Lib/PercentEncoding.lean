/-
Percent-encoding: a byte is written as itself, where the encoding keeps it, or as
`%` and two hex digits. The decoder leaves a `%` that no two digits follow as it
is. It reads back what any encoder writes that keeps ASCII bytes other than `%`
only (`decode_encode`).
-/
import Mathlib.Tactic.Common

namespace PercentEncoding

def hexDigit (n : Nat) : Char := "0123456789ABCDEF".toList.getD n '0'

def hexValue (c : Char) : Option Nat :=
  if '0' ≤ c ∧ c ≤ '9' then some (c.toNat - '0'.toNat)
  else if 'A' ≤ c ∧ c ≤ 'F' then some (c.toNat - 'A'.toNat + 10)
  else if 'a' ≤ c ∧ c ≤ 'f' then some (c.toNat - 'a'.toNat + 10)
  else none

variable (keeps : UInt8 → Bool)

def encodeByte (b : UInt8) : List Char :=
  if keeps b then [Char.ofNat b.toNat] else ['%', hexDigit (b.toNat / 16), hexDigit (b.toNat % 16)]

def encode (bytes : List UInt8) : List Char := bytes.flatMap (encodeByte keeps)

def decode : List Char → List UInt8
  | [] => []
  | '%' :: h :: l :: rest =>
    match hexValue h, hexValue l with
    | some high, some low => UInt8.ofNat (high * 16 + low) :: decode rest
    | _, _ => 37 :: decode (h :: l :: rest)
  | c :: rest => String.utf8EncodeChar c ++ decode rest

/-- What is kept is ASCII, and not the sign of the encoding. -/
def KeepsAscii : Prop := ∀ b, keeps b = true → b.toNat < 128 ∧ b.toNat ≠ '%'.toNat

variable {keeps}

theorem hexValue_hexDigit {n : Nat} (h : n < 16) : hexValue (hexDigit n) = some n :=
  (by decide +kernel : ∀ n : Fin 16, hexValue (hexDigit n) = some n.val) ⟨n, h⟩

theorem decode_cons {c : Char} (h : c ≠ '%') (rest : List Char) :
    decode (c :: rest) = String.utf8EncodeChar c ++ decode rest := by
  rw [decode]
  intro _ _ _ hc
  exact absurd hc h

/-- An ASCII character is one byte. -/
theorem utf8EncodeChar_ascii {n : Nat} (h : n < 128) : String.utf8EncodeChar (Char.ofNat n) = [UInt8.ofNat n] :=
  (by decide +kernel : ∀ n : Fin 128, String.utf8EncodeChar (Char.ofNat n) = [UInt8.ofNat n.val]) ⟨n, h⟩

theorem ofNat_ne_sign {n : Nat} (h : n < 128) (hn : n ≠ '%'.toNat) : Char.ofNat n ≠ '%' :=
  (by decide +kernel : ∀ n : Fin 128, n.val ≠ '%'.toNat → Char.ofNat n ≠ '%') ⟨n, h⟩ hn

theorem decode_encodeByte (h : KeepsAscii keeps) (b : UInt8) (rest : List Char) :
    decode (encodeByte keeps b ++ rest) = b :: decode rest := by
  have hlt := b.toNat_lt
  unfold encodeByte
  split
  next hkept =>
    obtain ⟨hascii, hsign⟩ := h b hkept
    rw [List.singleton_append, decode_cons (ofNat_ne_sign hascii hsign), utf8EncodeChar_ascii hascii, UInt8.ofNat_toNat, List.singleton_append]
  next =>
    show decode ('%' :: hexDigit (b.toNat / 16) :: hexDigit (b.toNat % 16) :: rest) = _
    rw [decode, hexValue_hexDigit (by omega), hexValue_hexDigit (by omega)]
    dsimp only
    rw [Nat.div_add_mod', UInt8.ofNat_toNat]

/-- **Reading back.** -/
theorem decode_encode (h : KeepsAscii keeps) (bytes : List UInt8) : decode (encode keeps bytes) = bytes := by
  induction bytes with
  | nil => rfl
  | cons b bytes ih => rw [encode, List.flatMap_cons, decode_encodeByte h, ← encode, ih]

theorem encode_eq_nil {bytes} : encode keeps bytes = [] ↔ bytes = [] := by
  cases bytes with
  | nil => exact iff_of_true rfl rfl
  | cons b bytes =>
    rw [encode, List.flatMap_cons, List.append_eq_nil_iff]
    unfold encodeByte
    split <;> simp

theorem encode_kept {bytes} (h : ∀ b ∈ bytes, keeps b = true) :
    encode keeps bytes = bytes.map fun b => Char.ofNat b.toNat := by
  induction bytes with
  | nil => rfl
  | cons b bytes ih =>
    rw [encode, List.flatMap_cons, ← encode, ih fun b' hb' => h b' (List.mem_cons_of_mem _ hb'), encodeByte,
      if_pos (h b List.mem_cons_self)]
    rfl

end PercentEncoding
