import LooseTypes.Proofs.Numeral.Scanner
import LooseTypes.Proofs.Coercion.Outcome

/-!
# Texts as integers

A text is coerced to an integer by the digits of its leading numeral, one after another in 64 bits
without a sign, where a product or a sum that is too large is the largest number
(`accumulate?`). Once it is, it stays so, and what all digits give is what they denote, clamped once
(`magnitude?_eq`). With its sign it is clamped again, which the first time does not disturb
(`toInt64?_eq`): a text becomes the integer part of its leading numeral, clamped into the signed
64-bit range (`coerce_int_text`).
-/

namespace LooseTypes

/-! ## Clamped numbers -/

theorem toNat_ofNatClamp (n : Nat) : (UInt64.ofNatClamp n).toNat = min n (2 ^ 64 - 1) := by
  have hsize : UInt64.size = 2 ^ 64 := rfl
  unfold UInt64.ofNatClamp
  split
  next h =>
    rw [UInt64.toNat_ofNatLT]
    omega
  next h =>
    rw [UInt64.toNat_ofNatLT]
    omega

theorem toInt_ofIntClamp (n : Int) :
    (Int64.ofIntClamp n).toInt = max (-2 ^ 63) (min n (2 ^ 63 - 1)) := by
  have hmin : Int64.minValue.toInt = -2 ^ 63 := by decide
  have hmax : Int64.maxValue.toInt = 2 ^ 63 - 1 := by decide
  unfold Int64.ofIntClamp
  split
  next hlow =>
    split
    next hhigh =>
      rw [Int64.toInt_ofIntLE]
      omega
    next hhigh => omega
  next hlow => omega

namespace Numeral

/-! ## One digit after another -/

/-- The product of two numbers, or the largest number. -/
def saturatingMul (a b : UInt64) : UInt64 := .ofNatClamp (a.toNat * b.toNat)

/-- The sum of two numbers, or the largest number. -/
def saturatingAdd (a b : UInt64) : UInt64 := .ofNatClamp (a.toNat + b.toNat)

/-- What a byte is above that of the digit zero, if it is not below. -/
def digitValue? (b : UInt8) : Option UInt8 :=
  if '0'.toUInt8 ≤ b then some (b - '0'.toUInt8) else none

def accumulate? (magnitude : UInt64) (digit : UInt8) : Option UInt64 :=
  (digitValue? digit).map fun d => saturatingAdd (saturatingMul magnitude 10) d.toUInt64

/-- The number that digits denote, or the largest number. -/
def magnitude? (ds : String) : Option UInt64 := (utf8Bytes ds).foldlM accumulate? 0

/-- An integer of 128 bits, if it is in range. -/
def int128? (n : Int) : Option Int := if -2 ^ 127 ≤ n ∧ n < 2 ^ 127 then some n else none

/-- A magnitude with its sign, in 128 bits. -/
def signed? (negative : Bool) (magnitude : UInt64) : Option Int :=
  int128? (if negative then -magnitude.toNat else magnitude.toNat)

/-- The integer part, or the bound of the range on its side; nothing if a step is out of its range. -/
def toInt64? (n : Numeral) : Option Int64 := do
  let magnitude ← magnitude? (String.ofList n.whole)
  let signed ← signed? n.negative magnitude
  return (int64? signed).getD (if n.negative then Int64.minValue else Int64.maxValue)

theorem toNat_saturatingMul (a b : UInt64) :
    (saturatingMul a b).toNat = min (a.toNat * b.toNat) (2 ^ 64 - 1) := toNat_ofNatClamp _

theorem toNat_saturatingAdd (a b : UInt64) :
    (saturatingAdd a b).toNat = min (a.toNat + b.toNat) (2 ^ 64 - 1) := toNat_ofNatClamp _

theorem digitValue?_digitChar {d : Nat} (h : d < 10) :
    digitValue? (Nat.digitChar d).toUInt8 = some (UInt8.ofNat d) := by
  revert d
  decide

/-- A digit more of a number that may have been clamped. -/
theorem accumulate?_digitChar (a : Nat) {d : Nat} (h : d < 10) :
    accumulate? (.ofNatClamp a) (Nat.digitChar d).toUInt8 = some (.ofNatClamp (10 * a + d)) := by
  have hd : (UInt8.ofNat d).toUInt64.toNat = d := by
    rw [UInt8.toNat_toUInt64, UInt8.toNat_ofNat']
    omega
  have hten : (10 : UInt64).toNat = 10 := rfl
  rw [accumulate?, digitValue?_digitChar h, Option.map_some, Option.some_inj, ← UInt64.toNat_inj,
    toNat_saturatingAdd, toNat_saturatingMul, toNat_ofNatClamp, toNat_ofNatClamp, hd, hten]
  omega

/-- All digits from the left: clamping on the way is clamping at the end. -/
theorem foldlM_accumulate? {ds : List Char} (h : ∀ c ∈ ds, c.isDigit = true) (a : Nat) :
    (ds.map Char.toUInt8).foldlM accumulate? (.ofNatClamp a) =
      some (.ofNatClamp (Nat.ofDigitChars 10 ds a)) := by
  induction ds generalizing a with
  | nil => rfl
  | cons c ds ih =>
    obtain ⟨d, hd, rfl⟩ := exists_digitChar_eq (h c List.mem_cons_self)
    rw [List.map_cons, List.foldlM_cons, accumulate?_digitChar a hd, Option.bind_eq_bind,
      Option.bind_some, ih (fun c hc => h c (List.mem_cons_of_mem _ hc)),
      Nat.ofDigitChars_cons_digitChar_of_lt_ten hd]

theorem magnitude?_eq {ds : List Char} (h : ∀ c ∈ ds, c.isDigit = true) :
    magnitude? (String.ofList ds) = some (.ofNatClamp (ofDigits ds)) := by
  rw [magnitude?, sameKind_digit.utf8Bytes_ofList h]
  exact foldlM_accumulate? h 0

theorem signed?_eq (negative : Bool) (magnitude : UInt64) :
    signed? negative magnitude =
      some (if negative then -(magnitude.toNat : Int) else magnitude.toNat) := by
  have hlt := magnitude.toNat_lt
  rw [signed?, int128?, if_pos]
  split <;> omega

/-- The bound on the side of its sign is what an integer out of range is clamped to. -/
theorem toInt_getD_int64? (negative : Bool) (m : Nat) :
    ((int64? (if negative then -(m : Int) else m)).getD
        (if negative then Int64.minValue else Int64.maxValue)).toInt =
      max (-2 ^ 63) (min (if negative then -(m : Int) else m) (2 ^ 63 - 1)) := by
  have hmin : Int64.minValue.toInt = -2 ^ 63 := by decide
  have hmax : Int64.maxValue.toInt = 2 ^ 63 - 1 := by decide
  cases hi : int64? (if negative then -(m : Int) else m) with
  | some i =>
    have hlow := i.le_toInt
    have hhigh := i.toInt_lt
    rw [Option.getD_some, ← int64?_eq_some_iff.1 hi]
    omega
  | none =>
    have hrange := int64?_eq_none_iff.1 hi
    rw [Option.getD_none]
    cases negative with
    | true =>
      simp only [if_true] at hrange ⊢
      omega
    | false =>
      simp only [Bool.false_eq_true, if_false] at hrange ⊢
      omega

/-- No step is out of its range, and clamping twice is clamping once. -/
theorem toInt64?_eq {n : Numeral} (h : ∀ c ∈ n.whole, c.isDigit = true) :
    n.toInt64? = some n.toInt64 := by
  have hmagnitude := toNat_ofNatClamp (ofDigits n.whole)
  rw [toInt64?, magnitude?_eq h, Option.bind_eq_bind, Option.bind_some, signed?_eq,
    Option.bind_eq_bind, Option.bind_some]
  refine congrArg some (Int64.toInt_inj.1 ?_)
  rw [toInt_getD_int64?, toInt64, toInt_ofIntClamp, truncate, hmagnitude]
  split
  · omega
  · omega

end Numeral

/-! ## Coercion -/

section Coercion

open Numeral

theorem Value.outcome_coerce_int_str {s : String} {n : Numeral} (h : Leads s.toList n) :
    ((Value.str s).coerce "int").outcome = .ok (.int n.toInt64) := by
  rw [Value.outcome_coerce_int, Value.toInt64, scan_eq_some_iff.2 h]
  rfl

theorem Value.outcome_coerce_int_str_of_not_leads {s : String} (h : ∀ n, ¬Leads s.toList n) :
    ((Value.str s).coerce "int").outcome = .ok (.int 0) := by
  rw [Value.outcome_coerce_int, Value.toInt64, scan_eq_none_iff.2 h]
  rfl

theorem Numeral.toInt_toInt64 {text : List Char} {n : Numeral} (h : Leads text n) :
    n.toInt64.toInt = max (-2 ^ 63) (min (towardZero n.value) (2 ^ 63 - 1)) := by
  rw [toInt64, toInt_ofIntClamp, truncate_eq (isDigit_of_scan (scan_eq_some_iff.2 h)).2]

/-- A text without a leading numeral becomes zero. Any other one becomes the integer part of the
numeral's value, clamped into the signed 64-bit range: all steps of the computation stay in their
ranges, and the digits before the point are added up to their number or the largest one. A greater
value never becomes a smaller integer. -/
theorem coerce_int_text (s : String) :
    ((∀ n, ¬Leads s.toList n) → ((Value.str s).coerce "int").outcome = .ok (.int 0)) ∧
      ∀ n, Leads s.toList n →
        ∃ i : Int64, ((Value.str s).coerce "int").outcome = .ok (.int i) ∧
          i.toInt = max (-2 ^ 63) (min (towardZero n.value) (2 ^ 63 - 1)) ∧
          n.toInt64? = some i ∧
          (magnitude? (String.ofList n.whole)).map UInt64.toNat =
            some (min (ofDigits n.whole) (2 ^ 64 - 1)) ∧
          ∀ t m j, Leads t.toList m → n.value ≤ m.value →
            ((Value.str t).coerce "int").outcome = .ok (.int j) → i ≤ j := by
  refine ⟨Value.outcome_coerce_int_str_of_not_leads, fun n hn => ?_⟩
  obtain ⟨hwhole, -⟩ := isDigit_of_scan (scan_eq_some_iff.2 hn)
  refine ⟨n.toInt64, Value.outcome_coerce_int_str hn, toInt_toInt64 hn, toInt64?_eq hwhole, ?_, ?_⟩
  · rw [magnitude?_eq hwhole, Option.map_some, toNat_ofNatClamp]
  · intro t m j hm hle hj
    have hsame : j = m.toInt64 := by
      rw [Value.outcome_coerce_int_str hm] at hj
      cases hj
      rfl
    have hmono := towardZero_mono hle
    rw [hsame, Int64.le_iff_toInt_le, toInt_toInt64 hn, toInt_toInt64 hm]
    omega

theorem coerce_int_text_below_range :
    ((Value.str "abc").coerce "int").outcome = .ok (.int 0) ∧
      ∃ i : Int64, ((Value.str " -0009223372036854775809.5kg").coerce "int").outcome =
          .ok (.int i) ∧ i.toInt = -2 ^ 63 ∧ i ≤ 7 := by
  have hnone : ∀ n, ¬Leads "abc".toList n := scan_eq_none_iff.1 (by decide)
  have hlow : Leads " -0009223372036854775809.5kg".toList
      ⟨true, "0009223372036854775809".toList, ['5']⟩ := scan_eq_some_iff.1 (by decide)
  have hseven : Leads "+7".toList ⟨false, ['7'], []⟩ := scan_eq_some_iff.1 (by decide)
  have hle : (⟨true, "0009223372036854775809".toList, ['5']⟩ : Numeral).value ≤
      (⟨false, ['7'], []⟩ : Numeral).value := by
    rw [Numeral.value, Numeral.value, if_pos rfl, if_neg Bool.false_ne_true, neg_one_mul, one_mul]
    exact le_trans (neg_nonpos.2 (by positivity)) (by positivity)
  obtain ⟨i, hi, htoInt, -, -, hmono⟩ := (coerce_int_text " -0009223372036854775809.5kg").2 _ hlow
  refine ⟨(coerce_int_text "abc").1 hnone, i, hi, ?_, ?_⟩
  · rw [htoInt, ← truncate_eq (isDigit_of_scan (scan_eq_some_iff.2 hlow)).2]
    decide
  · exact hmono "+7" _ 7 hseven hle (Value.outcome_coerce_int_str hseven)

end Coercion

end LooseTypes
