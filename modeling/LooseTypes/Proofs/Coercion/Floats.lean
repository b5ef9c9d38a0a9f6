import LooseTypes.Proofs.Binary64.Arithmetic
import LooseTypes.Proofs.Binary64.Places
import LooseTypes.Proofs.Coercion.Outcome
import Mathlib.Data.Int.ModEq

/-!
# Binary64 numbers as integers

As a signed 64-bit integer, a finite number counts by its whole part, wrapped around
(`coerce_int_float`). As an unsigned one it counts by its value rounded to six places, so that a
number within half a millionth below an integer counts as this integer (`coerce_uint64_float`). NaN
and the infinities are zero.
-/

namespace LooseTypes

open Binary64

/-! ## Signed integers -/

theorem Value.toInt_toInt64_float {x : Binary64} {q : ℚ} (h : x.value? = some q) :
    (Value.float x).toInt64.toInt = (towardZero q).bmod (2 ^ 64) := by
  rw [toInt64, truncate_eq_towardZero h, Int64.toInt_ofInt]
  rfl

/-- A finite number is coerced to the integer in the signed 64-bit range that is congruent to its
whole part. Binary64 arithmetic gives this integer without rounding, as a number within the range;
what is not finite is zero. -/
theorem coerce_int_float (x : Binary64) :
    ((Value.float x).coerce "int").outcome = .ok (.int (Value.float x).toInt64) ∧
    (∀ q, x.value? = some q →
      (∀ n : ℤ, -2 ^ 63 ≤ n ∧ n < 2 ^ 63 ∧ n ≡ towardZero q [ZMOD 2 ^ 64] ↔
        n = (Value.float x).toInt64.toInt) ∧
      (-2 ^ 63 ≤ towardZero q ∧ towardZero q < 2 ^ 63 →
        (Value.float x).toInt64.toInt = towardZero q) ∧
      ∃ (y : Binary64) (operations : List Operation) (n : ℤ),
        (wrapped x).run [] = some (y, operations) ∧ (∀ o ∈ operations, o.IsExact) ∧
        y.value? = some (n : ℚ) ∧ -2 ^ 63 ≤ n ∧ n < 2 ^ 63 ∧
        y.castInt64 = (Value.float x).toInt64) ∧
    (x.isFinite = false → (Value.float x).toInt64 = 0) := by
  refine ⟨Value.outcome_coerce_int _, fun q hq => ?_, fun hfinite => ?_⟩
  · have hint := Value.toInt_toInt64_float hq
    obtain ⟨y, operations, hrun, hexact, hy⟩ := givesExactly_wrapped hq []
    rw [← hint] at hy
    have hlow := (Value.float x).toInt64.le_toInt
    have hhigh := (Value.float x).toInt64.toInt_lt
    refine ⟨fun n => ?_, ?_, y, operations, _, hrun, hexact, hy, hlow, hhigh, ?_⟩
    · rw [hint, bmod_two_pow_64]
      unfold Int.ModEq
      omega
    · rw [hint, bmod_two_pow_64]
      omega
    · rw [castInt64, truncate_eq_towardZero hy, towardZero_intCast, ofIntClamp_eq_ofInt hlow hhigh,
        Int64.ofInt_toInt]
  · cases x with
    | finite negative rank => cases hfinite
    | nan => rfl
    | infinite negative => rfl

theorem coerce_int_float_wraps :
    (ofInt 10000000000000000000).value? = some ((10000000000000000000 : ℤ) : ℚ) ∧
    (Value.float (ofInt 10000000000000000000)).toInt64.toInt = -8446744073709551616 ∧
    (finite true ⟨4097 * 2 ^ 50, by decide⟩).value? = some (-(5 / 2)) ∧
    (Value.float (finite true ⟨4097 * 2 ^ 50, by decide⟩)).toInt64.toInt = -2 ∧
    (infinite true).isFinite = false ∧ (Value.float (infinite true)).toInt64 = 0 := by
  have hlarge : (ofInt 10000000000000000000).value? = some ((10000000000000000000 : ℤ) : ℚ) := by
    have hmagnitude : IsMagnitude (10000000000000000000 : Int).natAbs :=
      isMagnitude_of_2048_dvd (by decide) (by decide)
    exact hmagnitude.isInteger_ofInt.1
  have hhalf : (finite true ⟨4097 * 2 ^ 50, by decide⟩).value? = some (-(5 / 2)) := by
    exact value?_finite_of_mul_eq (n := 5) (d := 2) (by decide) (by decide +kernel)
  have hwhole : towardZero (-(5 / 2)) = -2 := by
    rw [towardZero_neg, neg_inj]
    exact towardZero_natCast_div 5 2
  refine ⟨hlarge, ?_, hhalf, ?_, rfl, (coerce_int_float _).2.2 rfl⟩
  · refine (((coerce_int_float _).2.1 _ hlarge).1 _).1 ⟨by decide, by decide, ?_⟩ |>.symm
    rw [towardZero_intCast]
    decide
  · rw [((coerce_int_float _).2.1 _ hhalf).2.1 (by rw [hwhole]; decide), hwhole]

/-! ## Unsigned integers -/

theorem Value.toUint64_float_eq {x : Binary64} {q r : ℚ} (h : x.value? = some q)
    (hr : IsRounded 6 q r) :
    (Value.float x).toUint64 = String.ofList (uint64Text (towardZero r)) := by
  rw [toUint64_float, clampDecimal_eq, hr.unique (isRounded_fixedText h)]

/-- Only what is rounded up to the next integer counts by another integer than its whole part. -/
theorem Value.toUint64_float_eq_iff {x : Binary64} {q : ℚ} (h : x.value? = some q) :
    (Value.float x).toUint64 = String.ofList (uint64Text (towardZero q)) ↔
      ¬(0 ≤ q ∧ ∃ k : ℤ, q < k ∧ k - q ≤ 1 / 2000000) := by
  have hrounded := isRounded_fixedText h
  rw [toUint64_float_eq h hrounded, String.ofList_inj]
  generalize leadingValue x.fixedText = r at hrounded
  rcases lt_or_ge q 0 with hneg | hq
  · have hr : r ≤ 0 := hrounded.mono ⟨0, by simp, by constructor <;> norm_num⟩ (le_of_lt hneg)
    rw [uint64Text_of_nonpos (towardZero_nonpos_iff.2 (by linarith)),
      uint64Text_of_nonpos (towardZero_nonpos_iff.2 (by linarith))]
    exact iff_of_true rfl fun h => absurd h.1 (not_le.2 hneg)
  · have hplaces : (1 : ℚ) / (2 * (10 ^ 6 : ℕ)) = 1 / 2000000 := by norm_num
    have hiff := hrounded.towardZero_eq_iff (by decide) hq
    rw [hplaces] at hiff
    constructor
    · rintro htext ⟨-, k, hlt, hnear⟩
      -- a number that is no integer is too small to be clamped
      have hsmall := lt_of_lt_intCast h hlt (by linarith)
      have hunclamped : towardZero q < uint64Max := by
        have : towardZero q ≤ 9007199254740992 := by
          exact_mod_cast towardZero_mono (le_of_lt hsmall)
        unfold uint64Max
        omega
      have hnonneg : 0 ≤ towardZero q := by
        rw [← towardZero_zero]
        exact towardZero_mono hq
      have hle := hrounded.towardZero_le (by decide) hq
      have hvalue := congrArg ofDigits htext
      rw [ofDigits_uint64Text, ofDigits_uint64Text] at hvalue
      exact hiff.1 (by omega) ⟨k, hlt, hnear⟩
    · intro hnone
      rw [hiff.2 fun hk => hnone ⟨hq, hk⟩]

/-- A finite number is coerced to the text of the whole part of its value rounded to six places, ties
to even, clamped into the unsigned 64-bit range. This is the whole part of the number itself unless
it is half a millionth below an integer, or nearer. A greater number gives no smaller integer, and
what is not finite is zero. -/
theorem coerce_uint64_float :
    (∀ x : Binary64,
      ((Value.float x).coerce "uint64").outcome = .ok (.str (Value.float x).toUint64) ∧
      (Value.float x).toUint64 = String.ofList (clampDecimal x.fixedText)) ∧
    (∀ (x : Binary64) (q : ℚ), x.value? = some q →
      IsRounded 6 q (leadingValue x.fixedText) ∧ (∃! r, IsRounded 6 q r) ∧
      (∀ r, IsRounded 6 q r → (Value.float x).toUint64 =
        String.ofList (intText (min (max (towardZero r) 0) 18446744073709551615))) ∧
      ((Value.float x).toUint64 =
          String.ofList (intText (min (max (towardZero q) 0) 18446744073709551615)) ↔
        ¬(0 ≤ q ∧ ∃ k : ℤ, q < k ∧ k - q ≤ 1 / 2000000))) ∧
    (∀ (x y : Binary64) (p q : ℚ), x.value? = some p → y.value? = some q → p ≤ q →
      ofDigits (Value.float x).toUint64.toList ≤ ofDigits (Value.float y).toUint64.toList) ∧
    ∀ x : Binary64, x.isFinite = false → (Value.float x).toUint64 = "0" := by
  have htext : ∀ n : ℤ, intText (min (max n 0) 18446744073709551615) = uint64Text n :=
    fun n => (uint64Text_eq_intText n).symm
  refine ⟨fun x => ⟨Value.outcome_coerce_uint64 _, toUint64_float x⟩, fun x q hq => ?_,
    fun x y p q hp hq hle => ?_, fun x hfinite => ?_⟩
  · have hrounded := isRounded_fixedText hq
    refine ⟨hrounded, ⟨_, hrounded, fun r hr => hr.unique hrounded⟩, fun r hr => ?_, ?_⟩
    · rw [htext]
      exact Value.toUint64_float_eq hq hr
    · rw [htext]
      exact Value.toUint64_float_eq_iff hq
  · have hx := isRounded_fixedText hp
    have hy := isRounded_fixedText hq
    have hwhole := towardZero_mono (hx.mono hy hle)
    rw [Value.toUint64_float_eq hp hx, Value.toUint64_float_eq hq hy, String.toList_ofList,
      String.toList_ofList, ofDigits_uint64Text, ofDigits_uint64Text]
    omega
  · cases x with
    | finite negative rank => cases hfinite
    | nan => rfl
    | infinite negative => rfl

theorem coerce_uint64_float_below_one :
    (finite false ⟨1023 * 2 ^ 52 - 1, by decide⟩).value? =
      some (9007199254740991 / 9007199254740992) ∧
    IsRounded 6 (9007199254740991 / 9007199254740992) 1 ∧
    (Value.float (finite false ⟨1023 * 2 ^ 52 - 1, by decide⟩)).toUint64 = "1" ∧
    ((zero true).value? = some 0 ∧ (0 : ℚ) ≤ 9007199254740991 / 9007199254740992 ∧
      ofDigits (Value.float (zero true)).toUint64.toList ≤
        ofDigits (Value.float (finite false ⟨1023 * 2 ^ 52 - 1, by decide⟩)).toUint64.toList) ∧
    nan.isFinite = false ∧ (Value.float nan).toUint64 = "0" := by
  have hvalue : (finite false ⟨1023 * 2 ^ 52 - 1, by decide⟩).value? =
      some (9007199254740991 / 9007199254740992) := by
    exact value?_finite_of_mul_eq (n := 9007199254740991) (d := 9007199254740992) (by decide)
      (by decide +kernel)
  have hzero := value?_zero true
  have hrounded : IsRounded 6 (9007199254740991 / 9007199254740992) 1 :=
    ⟨1000000, by norm_num, by constructor <;> norm_num [abs_le]⟩
  have hnonneg : (0 : ℚ) ≤ 9007199254740991 / 9007199254740992 := by norm_num
  have hwhole : towardZero 1 = 1 := by exact_mod_cast towardZero_intCast 1
  refine ⟨hvalue, hrounded, ?_,
    ⟨hzero, hnonneg, coerce_uint64_float.2.2.1 _ _ _ _ hzero hvalue hnonneg⟩, rfl,
    coerce_uint64_float.2.2.2 _ rfl⟩
  rw [(coerce_uint64_float.2.1 _ _ hvalue).2.2.1 1 hrounded, hwhole]
  rfl

end LooseTypes
