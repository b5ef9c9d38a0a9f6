import LooseTypes.Proofs.Binary64.Nearest
import LooseTypes.Value.Conversion
import LooseTypes.Proofs.Uint64

/-!
# Whole numbers as binary64 numbers

A whole number up to the greatest finite magnitude has a finite nearest number
(`nearestRank_whole_lt`). For one of 53 bits or more this is the multiple of a power of two that
is nearest to it (`units_nearestRank_whole`), and the text with six places shows the whole number
and six zeros (`sixPlaces_whole`), so that as an unsigned integer it counts in full.
-/

namespace LooseTypes.Binary64

variable {n : Nat}

def maxFinite : Nat := (2 ^ 53 - 1) * 2 ^ 971

/-! ## Overflow -/

theorem units_largest : units (rankLimit - 1) = maxFinite * unitsPerOne := by
  have hlargest : rankLimit - 1 = 2045 * 2 ^ 52 + (2 ^ 53 - 1) := rfl
  rw [hlargest, units_eq (by decide) (.inr (by decide)), maxFinite, unitsPerOne_eq, Nat.mul_assoc]
  exact congrArg _ (two_pow_eq_mul rfl)

theorem nearestRank_whole (hn : n ≠ 0) :
    nearestRank (n * unitsPerOne) 1 = (n.log2 + 1022) * 2 ^ 52 +
      roundDiv .even (n * unitsPerOne) (2 ^ (n.log2 + 1022)) := by
  have hshift : n.log2 + 1074 - 52 = n.log2 + 1022 := by omega
  simp only [nearestRank_eq, Nat.div_one, Nat.one_mul, log2_mul_unitsPerOne hn, hshift]

theorem nearestRank_whole_lt (h : n ≤ maxFinite) :
    nearestRank (n * unitsPerOne) 1 < rankLimit := by
  rcases Nat.eq_zero_or_pos n with rfl | hn
  · rw [Nat.zero_mul, nearestRank_of_div_eq_zero (by decide)]
    decide
  · have hlog : n.log2 < 1024 := by
      rw [Nat.log2_lt (Nat.ne_of_gt hn)]
      exact Nat.lt_of_le_of_lt h (by decide +kernel)
    rw [nearestRank_whole (Nat.ne_of_gt hn), rankLimit_eq]
    rcases Nat.lt_or_eq_of_le (Nat.le_of_lt_succ hlog) with hlt | heq
    · have hround : roundDiv .even (n * unitsPerOne) (2 ^ (n.log2 + 1022)) ≤ 2 ^ 53 := by
        have hexponents : n.log2 + 1 + 1074 = 53 + (n.log2 + 1022) := by omega
        refine roundDiv_le (Nat.two_pow_pos _) ?_
        calc n * unitsPerOne ≤ 2 ^ (n.log2 + 1) * unitsPerOne :=
              Nat.mul_le_mul_right _ (Nat.le_of_lt Nat.lt_log2_self)
          _ = 2 ^ (n.log2 + 1 + 1074) := by rw [Nat.pow_add 2 (n.log2 + 1), unitsPerOne_eq]
          _ = 2 ^ 53 * 2 ^ (n.log2 + 1022) := by rw [hexponents, Nat.pow_add]
      omega
    · -- among the last magnitudes before infinity there is no carry
      have hround : roundDiv .even (n * unitsPerOne) (2 ^ (n.log2 + 1022)) ≤ 2 ^ 53 - 1 := by
        have hexponents : n.log2 + 1022 = 971 + 1074 := by omega
        refine roundDiv_le (Nat.two_pow_pos _) ?_
        calc n * unitsPerOne ≤ maxFinite * unitsPerOne := Nat.mul_le_mul_right _ h
          _ = (2 ^ 53 - 1) * 2 ^ (971 + 1074) := by
            rw [maxFinite, Nat.mul_assoc, Nat.pow_add 2 971, unitsPerOne_eq]
          _ = (2 ^ 53 - 1) * 2 ^ (n.log2 + 1022) := by rw [hexponents]
      omega

theorem ofDecimal_whole (negative : Bool) (n : Nat) :
    ofDecimal negative ⟨n, 0⟩ = ofRatio negative n 1 := by
  rw [ofDecimal_eq_ofRatio, Decimal.num_eq, Decimal.den_eq, Int.neg_zero, Int.toNat_zero, Nat.pow_zero,
    Nat.mul_one]

/-- Digits without a fraction are the number that they denote, which can be too large. -/
theorem toBinary64_numeral (negative : Bool) (n : Nat) :
    Numeral.toBinary64 ⟨negative, digits n, []⟩ = ofRatio negative n 1 := by
  rw [← ofDecimal_whole]
  show ofDecimal negative ⟨ofDigits (digits n ++ []), _⟩ = _
  rw [List.append_nil, ofDigits_digits]
  rfl

theorem toBinary64_digits (n : Nat) :
    (Value.str (String.ofList (digits n))).toBinary64 = ofRatio false n 1 := by
  have hscan : Numeral.scan (digits n) = some ⟨false, digits n, []⟩ := by
    have hsigned := @Numeral.scan_signed [] n false (by simp)
    rwa [if_neg Bool.false_ne_true, List.append_nil] at hsigned
  rw [Value.toBinary64, String.toList_ofList, hscan, ← toBinary64_numeral]
  rfl

/-! ## The nearest magnitude -/

/-- A whole number rounded to 53 significant bits, ties to even. -/
def significant (n : Nat) : Nat := roundDiv .even n (2 ^ (n.log2 - 52)) * 2 ^ (n.log2 - 52)

theorem units_nearestRank_whole (h : 52 ≤ n.log2) :
    units (nearestRank (n * unitsPerOne) 1) = significant n * unitsPerOne := by
  have hn : n ≠ 0 := ne_zero_of_le_log2 (by decide) h
  have hshift : (n * unitsPerOne).log2 - 52 = n.log2 - 52 + 1074 := by
    rw [log2_mul_unitsPerOne hn]
    omega
  have hpow : 2 ^ (n.log2 - 52 + 1074) = 2 ^ (n.log2 - 52) * unitsPerOne := by
    rw [unitsPerOne_eq, ← Nat.pow_add]
  rw [units_nearestRank Nat.one_pos, Nat.div_one, Nat.one_mul, hshift, hpow,
    roundDiv_mul_right unitsPerOne_pos, significant, Nat.mul_assoc]

/-- Rounding does not go below the leading bit. -/
theorem two_pow_log2_le_significant (h : 52 ≤ n.log2) : 2 ^ n.log2 ≤ significant n := by
  have hn : n ≠ 0 := ne_zero_of_le_log2 (by decide) h
  have hsplit : 2 ^ 52 * 2 ^ (n.log2 - 52) = 2 ^ n.log2 := by
    rw [← Nat.pow_add, Nat.add_sub_cancel' h]
  rw [← hsplit]
  refine Nat.mul_le_mul_right _ (le_roundDiv (Nat.two_pow_pos _) ?_)
  rw [hsplit]
  exact Nat.log2_self_le hn

/-! ## The text with six places -/

theorem sixPlaces_whole (negative : Bool) {rank : Nat} (h : units rank = n * unitsPerOne) :
    sixPlaces negative rank =
      if negative then '-' :: (digits n ++ ".000000".toList)
      else digits n ++ ".000000".toList := by
  have hmillionths : roundDiv .even (units rank * 1000000) unitsPerOne = n * 1000000 := by
    rw [h, Nat.mul_right_comm, roundDiv_of_dvd unitsPerOne_pos (Nat.mul_mod_left _ _),
      Nat.mul_div_cancel _ unitsPerOne_pos]
  simp only [sixPlaces, hmillionths, Nat.mul_mod_left,
    Nat.mul_div_cancel n (Nat.succ_pos 999999), digits_zero]
  rfl

theorem clampDecimal_sixPlaces_whole (negative : Bool) {rank : Nat}
    (h : units rank = n * unitsPerOne) :
    clampDecimal (sixPlaces negative rank) = uint64Text (if negative then -n else n) := by
  rw [sixPlaces_whole negative h]
  refine clampDecimal_signed n negative fun c hc => ?_
  cases hc
  rfl

end LooseTypes.Binary64
