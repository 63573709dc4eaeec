/-
Lists made of code words. The words of a prefix code are not empty, at most so
long, and each tells where it ends: no two begin a list. Without a coded start the
rest of a coded list is coded (`PrefixCode.coded_of_append`), and a place between
two words is never a whole word below a position (`PrefixCode.exists_cut`). What comes of it
first is whole words and the start of one (`exists_partial`).
-/
import Mathlib.Data.List.Basic
import Mathlib.Tactic.Common

namespace PrefixCodes

variable {α β : Type*}

structure PrefixCode (encode : α → List β) (longest : Nat) : Prop where
  ne_nil : ∀ a, encode a ≠ []
  length_le : ∀ a, (encode a).length ≤ longest
  determined : ∀ {a b x y}, encode a ++ x = encode b ++ y → a = b

/-- The words of some letters, one after the other. -/
def Coded (encode : α → List β) (xs : List β) : Prop := ∃ letters : List α, xs = letters.flatMap encode

variable {encode : α → List β} {xs ys : List β} {longest : Nat}

theorem coded_nil : Coded encode [] := ⟨[], rfl⟩

theorem Coded.append (hx : Coded encode xs) (hy : Coded encode ys) : Coded encode (xs ++ ys) := by
  obtain ⟨a, rfl⟩ := hx
  obtain ⟨b, rfl⟩ := hy
  exact ⟨a ++ b, List.flatMap_append.symm⟩

theorem Coded.flatten {parts : List (List β)} (h : ∀ part ∈ parts, Coded encode part) : Coded encode parts.flatten := by
  induction parts with
  | nil => exact coded_nil
  | cons part parts ih =>
    exact (h part (List.mem_cons_self ..)).append (ih fun p hp => h p (List.mem_cons_of_mem part hp))

theorem PrefixCode.coded_of_append (hcode : PrefixCode encode longest) (hx : Coded encode xs)
    (h : Coded encode (xs ++ ys)) : Coded encode ys := by
  obtain ⟨letters, rfl⟩ := hx
  induction letters with
  | nil => exact h
  | cons a letters ih =>
    refine ih ?_
    obtain ⟨all, hall⟩ := h
    rw [List.flatMap_cons, List.append_assoc] at hall
    cases all with
    | nil => exact absurd (List.append_eq_nil_iff.1 hall).1 (hcode.ne_nil a)
    | cons b all =>
      obtain rfl := hcode.determined hall
      exact ⟨all, List.append_cancel_left hall⟩

/-- **A place to cut.** Below any position there is one less than a word away. -/
theorem PrefixCode.exists_cut (hcode : PrefixCode encode longest) (h : Coded encode xs) {position : Nat}
    (hle : position ≤ xs.length) :
    ∃ cut ≤ position, (position < cut + longest ∨ cut = position) ∧ Coded encode (xs.take cut) ∧
      Coded encode (xs.drop cut) := by
  obtain ⟨letters, rfl⟩ := h
  induction letters generalizing position with
  | nil =>
    have hzero : position = 0 := Nat.le_zero.1 hle
    exact ⟨0, Nat.zero_le _, .inr hzero.symm, coded_nil, coded_nil⟩
  | cons a letters ih =>
    rw [List.flatMap_cons, List.length_append] at hle
    rw [List.flatMap_cons]
    rcases Nat.lt_or_ge position (encode a).length with hlt | hge
    · have hlongest := hcode.length_le a
      refine ⟨0, Nat.zero_le _, .inl (by omega), coded_nil, a :: letters, ?_⟩
      rw [List.drop_zero, List.flatMap_cons]
    · obtain ⟨cut, hcut, hnear, hbefore, hafter⟩ := @ih (position - (encode a).length) (by omega)
      refine ⟨(encode a).length + cut, by omega, by omega, ?_, ?_⟩
      · rw [List.take_length_add_append]
        exact Coded.append ⟨[a], (List.flatMap_singleton ..).symm⟩ hbefore
      · rw [List.drop_length_add_append]
        exact hafter

/-- A part of a coded list: whole words, and then some of the next. -/
theorem exists_partial {letters : List α} (h : xs <+: letters.flatMap encode) :
    ∃ before after rest, letters = before ++ after ∧ xs = before.flatMap encode ++ rest ∧
      (rest = [] ∨ ∃ a, rest <+: encode a ∧ rest.length < (encode a).length) := by
  induction letters generalizing xs with
  | nil => exact ⟨[], [], [], rfl, List.prefix_nil.1 h, .inl rfl⟩
  | cons a letters ih =>
    rcases Nat.lt_or_ge xs.length (encode a).length with hlt | hge
    · have hstart := List.prefix_of_prefix_length_le h (List.prefix_append ..) (Nat.le_of_lt hlt)
      exact ⟨[], a :: letters, xs, rfl, rfl, .inr ⟨a, hstart, hlt⟩⟩
    · obtain ⟨ys, rfl⟩ := List.prefix_of_prefix_length_le (List.prefix_append ..) h hge
      obtain ⟨before, after, rest, rfl, rfl, hrest⟩ := ih ((List.prefix_append_right_inj _).1 h)
      exact ⟨a :: before, after, rest, rfl, by rw [List.flatMap_cons, List.append_assoc], hrest⟩

/-- UTF-8 is one. -/
theorem utf8_prefixCode : PrefixCode String.utf8EncodeChar 4 where
  ne_nil _ := String.utf8EncodeChar_ne_nil
  length_le c := by
    rw [String.length_utf8EncodeChar]
    exact c.utf8Size_le_four
  determined {c d xs ys} h := by
    have hdecode := congrArg (fun bytes : List UInt8 => bytes.toByteArray.utf8DecodeChar? 0) h
    rw [List.toByteArray_append, List.toByteArray_append, ← List.utf8Encode_singleton, ← List.utf8Encode_singleton,
      List.utf8DecodeChar?_utf8Encode_singleton_append, List.utf8DecodeChar?_utf8Encode_singleton_append] at hdecode
    exact Option.some.inj hdecode

end PrefixCodes
