/-!
# Integers and decimal numbers

The digits of a natural number, most significant first, the text of an integer, and numbers of the
form `coefficient * 10 ^ exponent`. Digits and texts denote the number that they were written from
(`ofDigits_digits`, `intOfText?_eq_some_iff`). Of the integers, `int64?` takes those in the signed
64-bit range (`int64?_eq_some_iff`).
-/

namespace LooseTypes

/-! ## Digits -/

/-- The decimal digits of `n`, without leading zeros; zero is `0`. -/
def digits (n : Nat) : List Char := Nat.toDigits 10 n

/-- The number that a list of decimal digits denotes; no digit denotes zero. -/
def ofDigits (ds : List Char) : Nat := Nat.ofDigitChars 10 ds 0

theorem ofDigits_digits (n : Nat) : ofDigits (digits n) = n :=
  Nat.ofDigitChars_toDigits (by decide) (by decide)

theorem isDigit_of_mem_digits {n : Nat} {c : Char} (h : c ∈ digits n) : c.isDigit = true :=
  Nat.isDigit_of_mem_toDigits (by decide) (by decide) h

/-! ## Integers -/

def intText (n : Int) : List Char :=
  if n < 0 then '-' :: digits n.natAbs else digits n.natAbs

/-- Reads digits after an optional minus sign. -/
def signedDigits : List Char → Int
  | '-' :: ds => -ofDigits ds
  | ds => ofDigits ds

/-- The integer whose decimal text this is, if there is one. -/
def intOfText? (text : List Char) : Option Int :=
  let n := signedDigits text
  if intText n = text then some n else none

theorem signedDigits_intText (n : Int) : signedDigits (intText n) = n := by
  unfold intText
  split
  next h => simp only [signedDigits, ofDigits_digits]; omega
  next h =>
    have hm : ∀ ds, digits n.natAbs ≠ '-' :: ds := fun ds he => by
      have := isDigit_of_mem_digits (n := n.natAbs) (c := '-') (by simp [he])
      exact absurd this (by decide)
    rw [signedDigits, ofDigits_digits]
    · omega
    · exact hm

theorem intOfText?_eq_some_iff {text : List Char} {n : Int} :
    intOfText? text = some n ↔ text = intText n := by
  simp only [intOfText?]
  constructor
  · intro h
    split at h
    next he => rw [← Option.some.inj h, he]
    next => cases h
  · rintro rfl
    simp [signedDigits_intText]

/-- The 64-bit integer equal to `n`, if there is one. -/
def int64? (n : Int) : Option Int64 :=
  if Int64.minValue.toInt ≤ n ∧ n ≤ Int64.maxValue.toInt then some (Int64.ofInt n) else none

/-- The next integer; the largest one is its own successor. -/
def nextInt64 (n : Int64) : Int64 := if n = Int64.maxValue then n else n + 1

theorem int64?_eq_some_iff {n : Int} {i : Int64} : int64? n = some i ↔ i.toInt = n := by
  unfold int64?
  rw [Int64.toInt_minValue, Int64.toInt_maxValue]
  constructor
  · intro h
    split at h
    next hn => rw [← Option.some.inj h, Int64.toInt_ofInt_of_le hn.1 (by omega)]
    next => cases h
  · rintro rfl
    have hlt := i.toInt_lt
    rw [if_pos ⟨i.le_toInt, by omega⟩, Int64.ofInt_toInt]

theorem int64?_eq_none_iff {n : Int} :
    int64? n = none ↔ n < -9223372036854775808 ∨ 9223372036854775808 ≤ n := by
  unfold int64?
  rw [Int64.toInt_minValue, Int64.toInt_maxValue]
  split
  next hn =>
    refine ⟨fun h => ?_, fun h => ?_⟩
    · cases h
    · omega
  next hn =>
    refine ⟨fun _ => ?_, fun _ => rfl⟩
    omega

/-! ## Decimal numbers -/

/-- A decimal number, `coefficient * 10 ^ exponent`. -/
structure Decimal where
  coefficient : Nat
  exponent : Int
  deriving DecidableEq, Repr

namespace Decimal

def num (d : Decimal) : Nat := d.coefficient * Nat.pow 10 d.exponent.toNat

def den (d : Decimal) : Nat := Nat.pow 10 (-d.exponent).toNat

theorem den_pos (d : Decimal) : 0 < d.den := Nat.pow_pos (by decide)

end Decimal

end LooseTypes
