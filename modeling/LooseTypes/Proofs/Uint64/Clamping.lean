import LooseTypes.Proofs.Uint64

/-!
# Clamping by decimal arithmetic

The leading numeral of a text can be clamped by the arithmetic of decimal numbers: its plain text is
read as a number, the places after the point are dropped, and the number is compared with the bounds
of the range (`DecimalArithmetic.clampDecimal`). With any arithmetic that is exact
(`DecimalArithmetic.Exact`) this gives what `clampDecimal` gives, and the plain text is always read
(`clampDecimal_exact`). `DecimalArithmetic.scaled` is one, with integers as coefficients.
-/

namespace LooseTypes

/-- Decimal numbers of any size with the operations that clamping needs. A number is
`coefficient / 10 ^ scale`. -/
structure DecimalArithmetic where
  Number : Type
  coefficient : Number → Int
  scale : Number → Int
  /-- Reads a decimal text. -/
  read? : List Char → Option Number
  ofNat : Nat → Number
  /-- The number with another scale; places that it has no room for are dropped. -/
  withScale : Number → Int → Number
  lessThan : Number → Number → Bool

namespace DecimalArithmetic

def value (A : DecimalArithmetic) (d : A.Number) : ℚ :=
  A.coefficient d * (10 ^ (-A.scale d).toNat : ℕ) / (10 ^ (A.scale d).toNat : ℕ)

/-- The operations are exact, and places are dropped toward zero. -/
structure Exact (A : DecimalArithmetic) : Prop where
  /-- Digits on both sides of a point are read as the fraction that they denote. -/
  read?_text {n : Numeral} : n.IsPlain → ∃ d, A.read? n.text = some d ∧ A.value d = n.value
  value_ofNat (n : Nat) : A.value (A.ofNat n) = n
  scale_withScale (d : A.Number) (s : Int) : A.scale (A.withScale d s) = s
  value_withScale_zero (d : A.Number) : A.value (A.withScale d 0) = towardZero (A.value d)
  lessThan_iff {a b : A.Number} : A.lessThan a b = true ↔ A.value a < A.value b

/-- The canonical text of the leading numeral of a text, clamped by decimal arithmetic. A text that
has none is zero, and so is one whose numeral is not read. -/
def clampDecimal (A : DecimalArithmetic) (text : List Char) : List Char :=
  match Numeral.scan text with
  | none => ['0']
  | some n =>
    match A.read? n.padded.text with
    | none => ['0']
    | some d =>
      let whole := A.withScale d 0
      if A.lessThan whole (A.ofNat 0) then ['0']
      else if A.lessThan (A.ofNat uint64Max) whole then digits uint64Max
      else intText (A.coefficient whole)

/-! ## The arithmetic of scaled integers -/

/-- Numbers as pairs of a coefficient and a scale. -/
def scaled : DecimalArithmetic where
  Number := Int × Int
  coefficient := Prod.fst
  scale := Prod.snd
  read? text :=
    let (negative, body) := Numeral.splitSign text
    let whole := body.takeWhile Char.isDigit
    match body.dropWhile Char.isDigit with
    | '.' :: fraction =>
      if fraction.all Char.isDigit then
        let n : Int := ofDigits (whole ++ fraction)
        some (if negative then -n else n, fraction.length)
      else none
    | _ => none
  ofNat n := (n, 0)
  withScale d s :=
    if d.2 ≤ s then (d.1 * (10 ^ (s - d.2).toNat : Nat), s)
    else (d.1.tdiv (10 ^ (d.2 - s).toNat : Nat), s)
  lessThan a b :=
    a.1 * (10 ^ (-a.2).toNat : Nat) * (10 ^ b.2.toNat : Nat) <
      b.1 * (10 ^ (-b.2).toNat : Nat) * (10 ^ a.2.toNat : Nat)

theorem read?_scaled {n : Numeral} (h : n.IsPlain) :
    scaled.read? n.text = some
      ((if n.negative then -(ofDigits (n.whole ++ n.fraction) : Int)
        else ofDigits (n.whole ++ n.fraction), (n.fraction.length : Int)) : Int × Int) := by
  simp only [scaled, Numeral.splitSign_text h, Numeral.takeWhile_point h.isDigit_whole,
    Numeral.dropWhile_point h.isDigit_whole, if_pos (List.all_eq_true.2 h.isDigit_fraction)]

theorem exact_scaled : scaled.Exact where
  read?_text {n} h := by
    refine ⟨_, read?_scaled h, ?_⟩
    have hscale : (-(n.fraction.length : Int)).toNat = 0 := Int.toNat_of_nonpos (by omega)
    simp only [value, scaled, hscale, Int.toNat_natCast, Nat.pow_zero, Nat.cast_one, mul_one,
      Numeral.value]
    cases n.negative with
    | true => simp [neg_div]
    | false => simp
  value_ofNat n := by simp [value, scaled]
  scale_withScale d s := by
    show (if d.2 ≤ s then _ else _ : Int × Int).2 = s
    split <;> rfl
  value_withScale_zero d := by
    obtain ⟨c, s⟩ := d
    show value scaled (if s ≤ 0 then (c * (10 ^ (0 - s).toNat : Nat), 0)
      else (c.tdiv (10 ^ (s - 0).toNat : Nat), 0) : Int × Int) =
        (towardZero (c * (10 ^ (-s).toNat : ℕ) / (10 ^ s.toNat : ℕ)) : ℤ)
    rcases Int.lt_or_le 0 s with hs | hs
    · have hscale : (-s).toNat = 0 := Int.toNat_of_nonpos (by omega)
      rw [if_neg (by omega), hscale, Nat.pow_zero, Nat.cast_one, mul_one, towardZero_intCast_div,
        Int.sub_zero]
      simp [value, scaled]
    · have hscale : s.toNat = 0 := Int.toNat_of_nonpos hs
      have hwhole : (c * (10 ^ (-s).toNat : ℕ) : ℚ) = (c * (10 ^ (-s).toNat : ℕ) : ℤ) := by
        rw [Int.cast_mul, Int.cast_natCast]
      rw [if_pos hs, hscale, Nat.pow_zero, Nat.cast_one, div_one, hwhole, towardZero_intCast,
        Int.zero_sub]
      simp [value, scaled]
  lessThan_iff {a b} := by
    have hpos : ∀ k : ℕ, (0 : ℚ) < (10 ^ k : ℕ) := fun k => by
      exact_mod_cast Nat.pow_pos (by decide)
    rw [value, value, div_lt_div_iff₀ (hpos _) (hpos _)]
    show decide (_ < _) = true ↔ _
    rw [decide_eq_true_iff]
    exact_mod_cast Iff.rfl

/-! ## Exact clamping -/

variable {A : DecimalArithmetic} {text : List Char} {n : Numeral}

theorem coefficient_eq {d : A.Number} {m : Int} (hscale : A.scale d = 0) (hvalue : A.value d = m) :
    A.coefficient d = m := by
  unfold value at hvalue
  rw [hscale, Int.neg_zero, Int.toNat_zero, Nat.pow_zero, Nat.cast_one, mul_one, div_one] at hvalue
  exact_mod_cast hvalue

theorem Exact.clampDecimal_eq (hA : A.Exact) (text : List Char) :
    A.clampDecimal text = LooseTypes.clampDecimal text := by
  unfold clampDecimal LooseTypes.clampDecimal
  cases hscan : Numeral.scan text with
  | none => rfl
  | some n =>
    obtain ⟨d, hread, hvalue⟩ := hA.read?_text (Numeral.isPlain_padded hscan)
    have htruncate := Numeral.truncate_eq (Numeral.isDigit_of_scan hscan).2
    have hwhole : A.value (A.withScale d 0) = (n.truncate : ℚ) := by
      rw [hA.value_withScale_zero, hvalue, Numeral.value_padded, htruncate]
    have hnegative : A.lessThan (A.withScale d 0) (A.ofNat 0) = true ↔ n.truncate < 0 := by
      rw [hA.lessThan_iff, hwhole, hA.value_ofNat]
      exact_mod_cast Iff.rfl
    have hlarge : A.lessThan (A.ofNat uint64Max) (A.withScale d 0) = true ↔
        (uint64Max : Int) < n.truncate := by
      rw [hA.lessThan_iff, hwhole, hA.value_ofNat]
      exact_mod_cast Iff.rfl
    simp only [hread]
    split
    next h => rw [uint64Text_of_nonpos (Int.le_of_lt (hnegative.1 h))]
    next hneg =>
      rw [hnegative] at hneg
      split
      next h => rw [uint64Text_of_le (Int.le_of_lt (hlarge.1 h))]
      next hmax =>
        rw [hlarge] at hmax
        rw [coefficient_eq (hA.scale_withScale d 0) hwhole, uint64Text_eq_intText,
          max_eq_left (by omega), min_eq_left (by omega)]

end DecimalArithmetic

/-- Clamping is exact for texts of any length, and decimal arithmetic clamps to the same text: it
reads every plain text as the value of its numeral. The text of a greater numeral is no smaller, an
unsigned integer keeps its digits, and what is less than one in magnitude is zero. -/
theorem clampDecimal_exact (A : DecimalArithmetic) (hA : A.Exact) :
    (∀ text, A.clampDecimal text = clampDecimal text) ∧
    (∀ text, Numeral.scan text = none → clampDecimal text = ['0']) ∧
    (∀ text n, Numeral.scan text = some n →
      (∃ d, A.read? n.padded.text = some d ∧ A.value d = n.value) ∧
      clampDecimal text = intText (min (max (towardZero n.value) 0) 18446744073709551615) ∧
      (-1 < n.value ∧ n.value < 1 → clampDecimal text = ['0'])) ∧
    (∀ text n text' n', Numeral.scan text = some n → Numeral.scan text' = some n' →
      n.value ≤ n'.value → ofDigits (clampDecimal text) ≤ ofDigits (clampDecimal text')) ∧
    ∀ n ≤ 18446744073709551615, clampDecimal (digits n) = digits n := by
  have hclamp : ∀ text n, Numeral.scan text = some n →
      clampDecimal text = uint64Text (towardZero n.value) := by
    intro text n hscan
    rw [clampDecimal_eq, leadingValue, hscan]
    rfl
  refine ⟨hA.clampDecimal_eq, ?_, ?_, ?_, fun n => clampDecimal_digits⟩
  · intro text hscan
    unfold clampDecimal
    rw [hscan]
  · intro text n hscan
    obtain ⟨d, hread, hvalue⟩ := hA.read?_text (Numeral.isPlain_padded hscan)
    refine ⟨⟨d, hread, hvalue.trans n.value_padded⟩, ?_, ?_⟩
    · rw [hclamp text n hscan]
      exact uint64Text_eq_intText _
    · rintro ⟨-, hlt⟩
      rw [hclamp text n hscan, uint64Text_of_nonpos (towardZero_nonpos_iff.2 hlt)]
  · intro text n text' n' hscan hscan' hle
    have hmono := towardZero_mono hle
    rw [hclamp text n hscan, hclamp text' n' hscan', ofDigits_uint64Text, ofDigits_uint64Text]
    omega

theorem clampDecimal_exact_scaled :
    DecimalArithmetic.scaled.Exact ∧
    DecimalArithmetic.scaled.clampDecimal "-.5".toList = clampDecimal "-.5".toList ∧
    (Numeral.scan "+.".toList = none ∧ clampDecimal "+.".toList = ['0']) ∧
    (Numeral.scan "-.5".toList = some ⟨true, [], ['5']⟩ ∧
      (∃ d, DecimalArithmetic.scaled.read? (Numeral.padded ⟨true, [], ['5']⟩).text = some d ∧
        DecimalArithmetic.scaled.value d = Numeral.value ⟨true, [], ['5']⟩) ∧
      clampDecimal "-.5".toList =
        intText (min (max (towardZero (Numeral.value ⟨true, [], ['5']⟩)) 0) 18446744073709551615) ∧
      (-1 < Numeral.value ⟨true, [], ['5']⟩ ∧ Numeral.value ⟨true, [], ['5']⟩ < 1) ∧
      clampDecimal "-.5".toList = ['0']) ∧
    (Numeral.scan "18446744073709551615.9 B".toList =
        some ⟨false, "18446744073709551615".toList, ['9']⟩ ∧
      Numeral.value ⟨true, [], ['5']⟩ ≤
        Numeral.value ⟨false, "18446744073709551615".toList, ['9']⟩ ∧
      ofDigits (clampDecimal "-.5".toList) ≤
        ofDigits (clampDecimal "18446744073709551615.9 B".toList)) ∧
    18446744073709551615 ≤ 18446744073709551615 ∧
      clampDecimal (digits 18446744073709551615) = digits 18446744073709551615 := by
  obtain ⟨hagrees, hnone, hsome, hmono, hkept⟩ :=
    clampDecimal_exact DecimalArithmetic.scaled DecimalArithmetic.exact_scaled
  have hscan : Numeral.scan "-.5".toList = some ⟨true, [], ['5']⟩ := by decide
  have hscan' : Numeral.scan "18446744073709551615.9 B".toList =
      some ⟨false, "18446744073709551615".toList, ['9']⟩ := by decide
  have hvalue : Numeral.value ⟨true, [], ['5']⟩ = -1 / 2 := by
    have hfive : ofDigits ['5'] = 5 := rfl
    norm_num [Numeral.value, hfive]
  have hnonneg : 0 ≤ Numeral.value ⟨false, "18446744073709551615".toList, ['9']⟩ := by
    unfold Numeral.value
    rw [if_neg (by decide), one_mul]
    exact div_nonneg (Nat.cast_nonneg _) (Nat.cast_nonneg _)
  have hsmall : -1 < Numeral.value ⟨true, [], ['5']⟩ ∧ Numeral.value ⟨true, [], ['5']⟩ < 1 := by
    rw [hvalue]
    norm_num
  have hle : Numeral.value ⟨true, [], ['5']⟩ ≤
      Numeral.value ⟨false, "18446744073709551615".toList, ['9']⟩ := by
    rw [hvalue]
    linarith
  obtain ⟨hread, htext, hzero⟩ := hsome _ _ hscan
  exact ⟨DecimalArithmetic.exact_scaled, hagrees _, ⟨by decide, hnone _ (by decide)⟩,
    ⟨hscan, hread, htext, hsmall, hzero hsmall⟩,
    ⟨hscan', hle, hmono _ _ _ _ hscan hscan' hle⟩, Nat.le_refl _, hkept _ (Nat.le_refl _)⟩

end LooseTypes
