import LooseTypes.Value.Conversion
import LooseTypes.Proofs.Numeral
import LooseTypes.Proofs.Text.Trim

/-!
# Canonical texts of unsigned integers

A canonical text is `0`, or digits without a leading zero; it denotes an unsigned 64-bit integer. A
text is read as the clamped integer part of the value of its leading numeral (`clampDecimal_eq`).
Whatever a value is, `Value.toUint64` gives the digits of such an integer, and reading them again,
trimmed and without leading zeros, gives the same digits: the lone zero is stripped to nothing and
comes back as the numeral that is missing.
-/

namespace LooseTypes

/-- The text of an unsigned 64-bit integer: no sign, and no leading zero but in `0` itself. -/
def CanonicalUint64 (text : List Char) : Prop :=
  (text = ['0'] ∨ text ≠ [] ∧ text.head? ≠ some '0' ∧ ∀ c ∈ text, c.isDigit = true) ∧
    ofDigits text ≤ 18446744073709551615

theorem canonicalUint64_digits {n : Nat} (h : n ≤ uint64Max) : CanonicalUint64 (digits n) := by
  refine ⟨?_, by rw [ofDigits_digits]; exact h⟩
  rcases Nat.eq_zero_or_pos n with rfl | hn
  · exact .inl digits_zero
  · exact .inr ⟨digits_ne_nil n, head?_digits_ne_zero hn, fun c => isDigit_of_mem_digits⟩

theorem canonicalUint64_iff {text : List Char} :
    CanonicalUint64 text ↔ ∃ n ≤ uint64Max, text = digits n := by
  constructor
  · rintro ⟨rfl | ⟨hne, hhead, hdigits⟩, hle⟩
    · exact ⟨0, Nat.zero_le _, digits_zero.symm⟩
    · exact ⟨ofDigits text, hle, (digits_ofDigits hne hhead hdigits).symm⟩
  · rintro ⟨n, hn, rfl⟩
    exact canonicalUint64_digits hn

/-! ## Clamping -/

theorem uint64Text_natCast {n : Nat} (h : n ≤ uint64Max) : uint64Text n = digits n := by
  rw [uint64Text, Int.toNat_natCast, Nat.min_eq_left h]

theorem uint64Text_of_nonpos {n : Int} (h : n ≤ 0) : uint64Text n = ['0'] := by
  rw [uint64Text, Int.toNat_of_nonpos h, Nat.zero_min, digits_zero]

theorem uint64Text_of_le {n : Int} (h : uint64Max ≤ n) : uint64Text n = digits uint64Max := by
  rw [uint64Text, Nat.min_eq_right (by omega)]

theorem uint64Text_eq_intText (n : Int) : uint64Text n = intText (min (max n 0) uint64Max) := by
  unfold uint64Text intText
  rw [if_neg (by omega)]
  congr 1
  omega

theorem ofDigits_uint64Text (n : Int) : ofDigits (uint64Text n) = min n.toNat uint64Max :=
  ofDigits_digits _

theorem uint64Text_eq_zero_iff {n : Int} : uint64Text n = ['0'] ↔ n ≤ 0 := by
  refine ⟨fun h => ?_, uint64Text_of_nonpos⟩
  have hzero := congrArg ofDigits h
  rw [uint64Text, ofDigits_digits] at hzero
  have : ofDigits ['0'] = 0 := rfl
  unfold uint64Max at hzero
  omega

/-! ## Reading a text -/

/-- The clamped integer part of the leading numeral, however many digits it has. -/
theorem clampDecimal_eq (text : List Char) :
    clampDecimal text = uint64Text (towardZero (leadingValue text)) := by
  unfold clampDecimal leadingValue
  cases hscan : Numeral.scan text with
  | none =>
    rw [Option.map_none, Option.getD_none, towardZero_zero, uint64Text_of_nonpos (Int.le_refl 0)]
  | some n =>
    show uint64Text n.truncate = uint64Text (towardZero n.value)
    rw [Numeral.truncate_eq (Numeral.isDigit_of_scan hscan).2]

/-- Without a numeral there are no digits either, and both count as zero. -/
theorem clampDecimal_of_split {text body : List Char} {negative : Bool}
    (h : Numeral.splitSign (text.dropWhile Numeral.isBlank) = (negative, body)) :
    clampDecimal text =
      uint64Text (if negative then -ofDigits (body.takeWhile Char.isDigit)
        else ofDigits (body.takeWhile Char.isDigit)) := by
  rw [clampDecimal, Numeral.scan_of_split h]
  by_cases hnone : ((body.takeWhile Char.isDigit).isEmpty &&
      (Numeral.fractionOf (body.dropWhile Char.isDigit)).isEmpty) = true
  · have hempty : body.takeWhile Char.isDigit = [] :=
      List.isEmpty_iff.1 (Bool.and_eq_true_iff.1 hnone).1
    rw [if_pos hnone, hempty]
    cases negative <;> rfl
  · rw [if_neg hnone]
    rfl

theorem clampDecimal_signed (n : Nat) {rest : List Char} (negative : Bool)
    (h : ∀ c ∈ rest.head?, c.isDigit = false) :
    clampDecimal (if negative then '-' :: (digits n ++ rest) else digits n ++ rest) =
      uint64Text (if negative then -n else n) := by
  rw [clampDecimal, Numeral.scan_signed n negative h]
  simp only [Numeral.truncate, ofDigits_digits]

theorem clampDecimal_digits {n : Nat} (h : n ≤ uint64Max) : clampDecimal (digits n) = digits n := by
  have hclamp := @clampDecimal_signed n [] false (by simp)
  rw [if_neg Bool.false_ne_true, List.append_nil, if_neg Bool.false_ne_true] at hclamp
  rw [hclamp, uint64Text_natCast h]

/-! ## The unsigned integer of a value -/

theorem exists_clampDecimal_eq_digits (text : List Char) :
    ∃ n ≤ uint64Max, clampDecimal text = digits n := by
  unfold clampDecimal
  split
  next n _ => exact ⟨_, Nat.min_le_right _ _, rfl⟩
  next => exact ⟨0, Nat.zero_le _, digits_zero.symm⟩

theorem Value.exists_toUint64_eq_digits (v : Value) :
    ∃ n ≤ uint64Max, v.toUint64 = String.ofList (digits n) := by
  unfold Value.toUint64
  split
  next negative rank =>
    obtain ⟨n, hn, h⟩ := exists_clampDecimal_eq_digits (Binary64.sixPlaces negative rank)
    exact ⟨n, hn, by rw [h]⟩
  next => exact ⟨0, Nat.zero_le _, by rw [digits_zero]⟩
  next =>
    obtain ⟨n, hn, h⟩ := exists_clampDecimal_eq_digits
      ((trimmed v.toText.toList).dropWhile (· == '0'))
    exact ⟨n, hn, by rw [h]⟩

example : (Value.str " +007.9 apples").toUint64 = "7" := rfl

theorem isTrimmedText_of_signed {text : List Char} (h : ∀ c ∈ text, c = '-' ∨ c.isDigit = true) :
    IsTrimmedText text := by
  intro c hc hmem
  have hsigned : c = '-' ∨ c.isDigit = true :=
    h c (hc.elim List.mem_of_head? List.mem_of_getLast?)
  simp only [List.mem_cons, List.not_mem_nil, or_false] at hmem
  rcases hmem with rfl | rfl | rfl | rfl | rfl | rfl <;> exact absurd hsigned (by decide)

theorem isTrimmedText_digits (n : Nat) : IsTrimmedText (digits n) :=
  isTrimmedText_of_signed fun _ hc => .inr (isDigit_of_mem_digits hc)

/-- Digits are read again as they are, although leading zeros are taken off before. -/
theorem Value.toUint64_str_digits {n : Nat} (h : n ≤ uint64Max) :
    (Value.str (String.ofList (digits n))).toUint64 = String.ofList (digits n) := by
  simp only [Value.toUint64, Value.toText, String.toList_ofList,
    trimmed_eq_self_iff.2 (isTrimmedText_digits n)]
  rcases Nat.eq_zero_or_pos n with rfl | hn
  · rw [digits_zero]
    rfl
  · obtain ⟨c, rest, hd⟩ := List.exists_cons_of_ne_nil (digits_ne_nil n)
    have hc : c ≠ '0' := fun he => head?_digits_ne_zero hn (by rw [hd, he]; rfl)
    have hstrip : (digits n).dropWhile (· == '0') = digits n := by
      rw [hd, List.dropWhile_cons_of_neg (by simpa using hc)]
    rw [hstrip, clampDecimal_digits h]

/-- An integer counts as it is. -/
theorem Value.toUint64_int (i : Int64) :
    (Value.int i).toUint64 = String.ofList (uint64Text i.toInt) := by
  have htext : (Value.int i).toUint64 =
      (Value.str (String.ofList (intText i.toInt))).toUint64 := by
    simp only [toUint64, toText]
  rw [htext]
  rcases Int.lt_or_le i.toInt 0 with hneg | hnonneg
  · have htrimmed : IsTrimmedText ('-' :: digits i.toInt.natAbs) :=
      isTrimmedText_of_signed <| List.forall_mem_cons.2
        ⟨.inl rfl, fun _ hc => .inr (isDigit_of_mem_digits hc)⟩
    have hclamp := @clampDecimal_signed i.toInt.natAbs [] true (by simp)
    rw [if_pos rfl, List.append_nil, if_pos rfl] at hclamp
    simp only [toUint64, toText, intText, if_pos hneg, String.toList_ofList,
      trimmed_eq_self_iff.2 htrimmed]
    rw [List.dropWhile_cons_of_neg (by decide), hclamp, uint64Text_of_nonpos (by omega),
      uint64Text_of_nonpos (by omega)]
  · have hmax : i.toInt.natAbs ≤ uint64Max := by
      have := i.toInt_lt
      unfold uint64Max
      omega
    have hcast : uint64Text i.toInt = digits i.toInt.natAbs := by
      rw [← uint64Text_natCast hmax, Int.natAbs_of_nonneg hnonneg]
    rw [intText, if_neg (Int.not_lt.2 hnonneg), toUint64_str_digits hmax, hcast]

end LooseTypes
