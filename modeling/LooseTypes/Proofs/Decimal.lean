import LooseTypes.Decimal
import Mathlib.Algebra.Group.Int.Defs
import Mathlib.Algebra.Group.Nat.Defs
import Mathlib.Data.List.Induction

/-!
# Digits without leading zeros

The digits of a number never begin with a zero but for zero itself, and digits that do not begin
with one are those of the number that they denote (`digits_ofDigits`).
-/

namespace LooseTypes

theorem ten_pow_le_ten_pow {a b : Nat} (h : a ≤ b) : 10 ^ a ≤ 10 ^ b :=
  Nat.pow_le_pow_right (by decide) h

theorem digits_zero : digits 0 = ['0'] := Nat.toDigits_zero 10

theorem digits_ne_nil (n : Nat) : digits n ≠ [] := Nat.toDigits_ne_nil

theorem length_digits_pos (n : Nat) : 0 < (digits n).length :=
  List.length_pos_iff.2 (digits_ne_nil n)

theorem isDigit_of_mem_replicate {k : Nat} : ∀ c ∈ List.replicate k '0', c.isDigit = true := by
  intro c hc
  rw [List.eq_of_mem_replicate hc]
  rfl

theorem head?_digits_ne_zero {n : Nat} (h : 0 < n) : (digits n).head? ≠ some '0' := by
  induction n using Nat.strongRecOn with
  | ind n ih =>
    by_cases hn : n < 10
    · rw [digits, Nat.toDigits_of_lt_base hn]
      have : ∀ m < 10, 0 < m → [Nat.digitChar m].head? ≠ some '0' := by decide
      exact this n hn h
    · have hrest : (digits (n / 10)).head? ≠ some '0' := ih (n / 10) (by omega) (by omega)
      rw [digits, Nat.toDigits_of_base_le (by decide) (by omega), ← digits, List.head?_append]
      cases hd : (digits (n / 10)).head? with
      | none => exact absurd (List.head?_eq_none_iff.1 hd) (digits_ne_nil _)
      | some c =>
        rw [hd] at hrest
        exact hrest

/-- A digit character by its value. -/
theorem exists_digitChar_eq {c : Char} (h : c.isDigit = true) : ∃ d < 10, c = Nat.digitChar d := by
  have hrange : 48 ≤ c.toNat ∧ c.toNat ≤ 57 := Char.isDigit_iff_toNat.1 h
  refine ⟨c.toNat - 48, by omega, ?_⟩
  rw [← Char.toNat_inj, Nat.toNat_digitChar_of_lt_ten (by omega)]
  omega

theorem ofDigits_concat (text : List Char) {d : Nat} (h : d < 10) :
    ofDigits (text ++ [Nat.digitChar d]) = 10 * ofDigits text + d := by
  rw [ofDigits, Nat.ofDigitChars_append, Nat.ofDigitChars_cons_digitChar_of_lt_ten h,
    Nat.ofDigitChars_nil, ofDigits]

theorem digits_concat {n d : Nat} (hn : 0 < n) (hd : d < 10) :
    digits (10 * n + d) = digits n ++ [Nat.digitChar d] := by
  rw [digits, ← Nat.toDigits_append_toDigits (by decide) hn hd, Nat.toDigits_of_lt_base hd, digits]

theorem digits_mul_ten_pow {n : Nat} (hn : 0 < n) (k : Nat) :
    digits (n * 10 ^ k) = digits n ++ List.replicate k '0' := by
  induction k with
  | zero => simp
  | succ k ih =>
    have hpos : 0 < n * 10 ^ k := Nat.mul_pos hn (Nat.pow_pos (by decide))
    have hshift : n * 10 ^ (k + 1) = 10 * (n * 10 ^ k) + 0 := by
      rw [Nat.pow_succ, ← Nat.mul_assoc, Nat.mul_comm, Nat.add_zero]
    rw [hshift, digits_concat hpos (by decide), ih, List.replicate_succ', List.append_assoc]
    rfl

theorem digits_ofDigits {text : List Char} (hne : text ≠ []) (hhead : text.head? ≠ some '0')
    (hdigits : ∀ c ∈ text, c.isDigit = true) : digits (ofDigits text) = text := by
  induction text using List.reverseRecOn with
  | nil => exact absurd rfl hne
  | append_singleton text last ih =>
    obtain ⟨d, hd, rfl⟩ := exists_digitChar_eq (hdigits last (by simp))
    rw [ofDigits_concat text hd]
    by_cases htext : text = []
    · subst htext
      rw [digits, ofDigits, Nat.ofDigitChars_nil, Nat.mul_zero, Nat.zero_add,
        Nat.toDigits_of_lt_base hd, List.nil_append]
    · have hhead' : text.head? ≠ some '0' := fun h =>
        hhead (by rw [List.head?_append, h, Option.some_or])
      have hrest : digits (ofDigits text) = text :=
        ih htext hhead' fun c hc => hdigits c (List.mem_append_left _ hc)
      -- the digits of zero would begin with one
      have hpos : 0 < ofDigits text := by
        refine Nat.pos_of_ne_zero fun h0 => hhead' ?_
        rw [← hrest, h0, digits_zero]
        rfl
      rw [digits_concat hpos hd, hrest]

theorem ofDigits_append_zeros (text : List Char) (k : Nat) :
    ofDigits (text ++ List.replicate k '0') = ofDigits text * 10 ^ k := by
  rw [ofDigits, Nat.ofDigitChars_append, Nat.ofDigitChars_replicate_zero, ofDigits, Nat.mul_comm]

theorem ofDigits_zeros_append (text : List Char) (k : Nat) :
    ofDigits (List.replicate k '0' ++ text) = ofDigits text := by
  rw [ofDigits, Nat.ofDigitChars_append, Nat.ofDigitChars_replicate_zero, Nat.mul_zero, ofDigits]

theorem ofDigits_append (text rest : List Char) :
    ofDigits (text ++ rest) = ofDigits text * 10 ^ rest.length + ofDigits rest := by
  rw [ofDigits, Nat.ofDigitChars_append, Nat.ofDigitChars_eq_ofDigitChars_zero, Nat.mul_comm,
    ofDigits, ofDigits]

theorem ofDigits_lt {text : List Char} (h : ∀ c ∈ text, c.isDigit = true) :
    ofDigits text < 10 ^ text.length := by
  induction text using List.reverseRecOn with
  | nil => decide
  | append_singleton text last ih =>
    obtain ⟨d, hd, rfl⟩ := exists_digitChar_eq (h last (by simp))
    have hrest : ofDigits text < 10 ^ text.length := ih fun c hc => h c (List.mem_append_left _ hc)
    rw [ofDigits_concat text hd, List.length_append, List.length_singleton, Nat.pow_succ]
    omega

/-- The digits of a fraction are less than one. -/
theorem ofDigits_append_div (text : List Char) {fraction : List Char}
    (h : ∀ c ∈ fraction, c.isDigit = true) :
    ofDigits (text ++ fraction) / 10 ^ fraction.length = ofDigits text := by
  have hpos : 0 < 10 ^ fraction.length := Nat.pow_pos (by decide)
  rw [ofDigits_append, Nat.mul_comm, Nat.mul_add_div hpos, Nat.div_eq_of_lt (ofDigits_lt h),
    Nat.add_zero]

namespace Decimal

theorem num_eq (d : Decimal) : d.num = d.coefficient * 10 ^ d.exponent.toNat := rfl

theorem den_eq (d : Decimal) : d.den = 10 ^ (-d.exponent).toNat := rfl

theorem den_of_nonneg {d : Decimal} (h : 0 ≤ d.exponent) : d.den = 1 := by
  rw [den_eq, Int.toNat_of_nonpos (by omega), Nat.pow_zero]

theorem num_of_neg {d : Decimal} (h : d.exponent < 0) : d.num = d.coefficient := by
  rw [num_eq, Int.toNat_of_nonpos (by omega), Nat.pow_zero, Nat.mul_one]

end Decimal

/-! ## The characters of a class at the start of a text -/

section Span

variable {p : Char → Bool} {text rest : List Char}

theorem takeWhile_append_of_head (h : ∀ c ∈ text, p c = true)
    (hrest : ∀ c ∈ rest.head?, p c = false) : (text ++ rest).takeWhile p = text := by
  rw [List.takeWhile_append_of_pos h]
  cases rest with
  | nil => simp
  | cons c rest => simp [hrest c rfl]

theorem dropWhile_append_of_head (h : ∀ c ∈ text, p c = true)
    (hrest : ∀ c ∈ rest.head?, p c = false) : (text ++ rest).dropWhile p = rest := by
  rw [List.dropWhile_append_of_pos h]
  cases rest with
  | nil => rfl
  | cons c rest => simp [hrest c rfl]

end Span

end LooseTypes
