import LooseTypes.Proofs.Binary64.Magnitudes
import LooseTypes.Proofs.Json.Number

/-!
# Finite numbers are read from their written forms

The written form of a finite number is read as a finite number of the same sign (`number?_finite`),
`rereadRank` of its rank. The decoder's product does not overflow (`scaledRank_readDecimal_lt`): most
are far from the end of the range, and the few powers of ten near it are gone through one by one. With
a significand of 53 bits and a power of ten up to `10 ^ 22` nothing is rounded before the last step,
so the number comes back as it was (`rereadRank_eq_of_isExact`); else it need not. Different numbers
have different written forms all the same (`finite_inj`).
-/

namespace LooseTypes.Json

open Binary64

/-! ## The decimal number that is read -/

theorem ofDecimal_asRead (negative : Bool) (d : Decimal) :
    ofDecimal negative (asRead d) = ofDecimal negative d := by
  unfold asRead
  split
  next h =>
    have hexponent : (-1 : ℤ) = d.exponent - (d.exponent.toNat + 1 : ℕ) := by omega
    rw [hexponent]
    exact ofDecimal_shift negative d.coefficient d.exponent (d.exponent.toNat + 1)
  next => rfl

theorem coefficient_asRead_lt {d : Decimal} (h : d.coefficient < 10 ^ 17) :
    (asRead d).coefficient < 10 ^ 17 := by
  unfold asRead
  split
  next hwhole =>
    have hhighest : (d.exponent + (digits d.coefficient).length - 1 : ℤ) ≤ 15 := by
      have hpositional := (Bool.and_eq_true_iff.1 hwhole.1).2
      exact of_decide_eq_true hpositional
    calc d.coefficient * 10 ^ (d.exponent.toNat + 1)
        < 10 ^ (digits d.coefficient).length * 10 ^ (d.exponent.toNat + 1) :=
          Nat.mul_lt_mul_of_pos_right (lt_ten_pow_length_digits _) (Nat.pow_pos (by decide))
      _ = 10 ^ ((digits d.coefficient).length + (d.exponent.toNat + 1)) := (Nat.pow_add ..).symm
      _ ≤ 10 ^ 17 := Nat.pow_le_pow_right (by decide) (by omega)
  next => exact h

/-- The shortest decimal number of a magnitude, as it is read. -/
def readDecimal (rank : ℕ) : Decimal := asRead (shortest .even rank)

theorem coefficient_readDecimal_lt (rank : ℕ) : (readDecimal rank).coefficient < 10 ^ 17 :=
  coefficient_asRead_lt (coefficient_shortest_lt .even rank)

theorem ofDecimal_readDecimal (negative : Bool) (rank : Fin rankLimit) :
    ofDecimal negative (readDecimal rank) = .finite negative rank := by
  rw [readDecimal, ofDecimal_asRead, ofDecimal_shortest]

theorem nearestRank_readDecimal (rank : Fin rankLimit) :
    nearestRank ((readDecimal rank).num * unitsPerOne) (readDecimal rank).den = rank := by
  have h := ofDecimal_readDecimal false rank
  rw [ofDecimal_eq_ofRatio, ofRatio, ← ofRank_of_lt] at h
  exact ofRank_inj rank.isLt h

/-- The decimal number of the greatest magnitude is below it. -/
theorem readDecimal_largest : readDecimal (rankLimit - 1) = ⟨17976931348623157, 292⟩ := by
  decide +kernel

theorem num_readDecimal_le (rank : Fin rankLimit) (h : 0 ≤ (readDecimal rank).exponent) :
    (readDecimal rank).num ≤ maxFinite := by
  rcases Nat.lt_or_eq_of_le (Nat.le_pred_of_lt rank.isLt) with hlt | heq
  · apply Nat.le_of_not_lt
    intro hlarge
    have hread := nearestRank_readDecimal rank
    rw [Decimal.den_of_nonneg h] at hread
    have hle : rankLimit - 1 ≤ nearestRank ((readDecimal rank).num * unitsPerOne) 1 := by
      refine le_nearestRank Nat.one_pos ?_
      rw [units_largest, Nat.mul_one]
      exact Nat.mul_le_mul_right _ (Nat.le_of_lt hlarge)
    rw [hread] at hle
    exact absurd hlt (Nat.not_lt.2 hle)
  · rw [heq, Nat.pred_eq_sub_one, readDecimal_largest]
    decide +kernel

/-! ## No overflow -/

theorem le_units_tenRank (k : ℕ) : unitsPerOne ≤ units (tenRank k) := by
  have hone : units (natRank 1) = 1 * unitsPerOne := units_nearestRank_of_le (by decide)
  have hle : units (natRank 1) ≤ units (tenRank k) :=
    units_le_units_iff.2 (natRank_mono (Nat.pow_pos (by decide)))
  rwa [hone, Nat.one_mul] at hle

theorem divideDown_le (times rank : ℕ) : divideDown times rank ≤ rank := by
  induction times generalizing rank with
  | zero => exact Nat.le_refl rank
  | succ times ih =>
    rw [divideDown]
    split
    · exact Nat.zero_le rank
    · exact Nat.le_trans (ih _) (divRank_le (le_units_tenRank 308))

theorem scaledRank_lt_of_neg {c : ℕ} {e : ℤ} (hc : c ≤ uint64Max) (he : e < 0) :
    scaledRank c e < rankLimit := by
  have hrank : natRank c < rankLimit :=
    nearestRank_whole_lt (Nat.le_trans hc (by decide +kernel))
  unfold scaledRank
  dsimp only
  rw [if_neg (Int.not_le.2 he)]
  exact Nat.lt_of_le_of_lt (Nat.le_trans (divRank_le (le_units_tenRank _)) (divideDown_le _ _)) hrank

/-- The powers of ten with which a number of seventeen digits comes near the end of the range. -/
theorem mulRank_largest_lt :
    ∀ k ≤ 16, mulRank (natRank (maxFinite / 10 ^ (292 + k))) (tenRank (292 + k)) < rankLimit := by
  decide +kernel

theorem mulRank_tenRank_lt {c k : ℕ} (hc : c < 10 ^ 17) (hk : k ≤ 308)
    (hmax : c * 10 ^ k ≤ maxFinite) : mulRank (natRank c) (tenRank k) < rankLimit := by
  rcases Nat.lt_or_ge k 292 with hlt | hge
  · have hle : c * 10 ^ k ≤ 10 ^ (17 + k) := by
      rw [Nat.pow_add]
      exact Nat.mul_le_mul_right _ (Nat.le_of_lt hc)
    exact mulRank_natRank_lt (Nat.le_trans hle (ten_pow_le_ten_pow (by omega)))
  · obtain ⟨j, rfl⟩ := Nat.exists_eq_add_of_le hge
    have hle : c ≤ maxFinite / 10 ^ (292 + j) :=
      (Nat.le_div_iff_mul_le (Nat.pow_pos (by decide))).2 hmax
    exact Nat.lt_of_le_of_lt (mulRank_mono (natRank_mono hle) (Nat.le_refl _))
      (mulRank_largest_lt j (by omega))

theorem scaledRank_of_nonneg {c : ℕ} {k : ℕ} (hk : k ≤ 308) :
    scaledRank c k = mulRank (natRank c) (tenRank k) := by
  unfold scaledRank
  dsimp only
  rw [if_pos (Int.natCast_nonneg k), if_pos (by exact_mod_cast hk), Int.toNat_natCast]

theorem scaledRank_readDecimal_lt (rank : Fin rankLimit) :
    scaledRank (readDecimal rank).coefficient (readDecimal rank).exponent < rankLimit := by
  have hcoefficient := coefficient_readDecimal_lt rank
  rcases Int.lt_or_le (readDecimal rank).exponent 0 with hneg | hnonneg
  · exact scaledRank_lt_of_neg (Nat.le_trans (Nat.le_of_lt hcoefficient) (by decide)) hneg
  · have hmax := num_readDecimal_le rank hnonneg
    obtain ⟨k, hk⟩ := Int.eq_ofNat_of_zero_le hnonneg
    rw [Decimal.num_eq, hk, Int.toNat_natCast] at hmax
    rw [hk]
    rcases Nat.lt_or_ge 308 k with hlarge | hle
    · have hzero : (readDecimal rank).coefficient = 0 := by
        by_contra hne
        have hpower : 10 ^ k ≤ maxFinite :=
          Nat.le_trans (Nat.le_mul_of_pos_left _ (Nat.pos_of_ne_zero hne)) hmax
        have hlast : 10 ^ (308 + 1) ≤ maxFinite :=
          Nat.le_trans (ten_pow_le_ten_pow hlarge) hpower
        exact absurd hlast (by decide +kernel)
      rw [hzero]
      unfold scaledRank
      dsimp only
      rw [if_pos (Int.natCast_nonneg k), if_neg (by omega), if_pos (by decide)]
      decide
    · rw [scaledRank_of_nonneg hle]
      exact mulRank_tenRank_lt hcoefficient hle hmax

theorem float?_of_lt {c : ℕ} {e : ℤ} (negative : Bool) (h : scaledRank c e < rankLimit) :
    float? negative c e = some (.float negative ⟨scaledRank c e, h⟩) := by
  rw [float?, ofRank, dif_pos h]

/-- The rank of the number that is read where that at a rank was written. -/
def rereadRank (rank : Fin rankLimit) : Fin rankLimit := ⟨_, scaledRank_readDecimal_lt rank⟩

theorem number?_finite (negative : Bool) (rank : Fin rankLimit) :
    number? (Layout.interchange.finite negative rank) = some (.float negative (rereadRank rank)) := by
  have hfits : (readDecimal rank).coefficient ≤ uint64Max :=
    Nat.le_trans (Nat.le_of_lt (coefficient_readDecimal_lt rank)) (by decide)
  rw [(writes_finite negative rank).number?_eq, Parts.token?_ofDecimal negative hfits]
  exact float?_of_lt negative (scaledRank_readDecimal_lt rank)

/-! ## Numbers that come back as they were -/

theorem tenRank_eq (k : ℕ) : tenRank k = natRank (10 ^ k) := rfl

theorem units_natRank_ten_pow {k : ℕ} (h : k ≤ 22) : units (natRank (10 ^ k)) = 10 ^ k * unitsPerOne := by
  have hdvd : ∀ k ≤ 22, 2 ^ ((10 ^ k).log2 - 52) ∣ 10 ^ k := by decide
  exact units_nearestRank_of_dvd (hdvd k h)

/-- The digits fit in 53 bits, and the power of ten is a magnitude. -/
def IsExact (d : Decimal) : Prop := d.coefficient ≤ 2 ^ 53 ∧ -22 ≤ d.exponent ∧ d.exponent ≤ 22

instance (d : Decimal) : Decidable (IsExact d) := inferInstanceAs (Decidable (_ ∧ _))

theorem scaledRank_of_isExact {d : Decimal} (h : IsExact d) :
    scaledRank d.coefficient d.exponent = nearestRank (d.num * unitsPerOne) d.den := by
  obtain ⟨hcoefficient, hlow, hhigh⟩ := h
  have hunits : units (natRank d.coefficient) = d.coefficient * unitsPerOne :=
    units_nearestRank_of_le hcoefficient
  unfold scaledRank
  dsimp only
  split
  next hnonneg =>
    rw [if_pos (by omega), tenRank_eq, mulRank_natRank hunits (units_natRank_ten_pow (by omega)), Decimal.den_of_nonneg hnonneg,
      Decimal.num_eq]
  next hneg =>
    have htimes : ((-d.exponent).toNat - 1) / 308 = 0 := by omega
    rw [htimes, divideDown, Nat.mul_zero, Nat.sub_zero, tenRank_eq,
      divRank_natRank hunits (units_natRank_ten_pow (by omega)) (Nat.pow_pos (by decide)),
      Decimal.num_of_neg (Int.not_le.1 hneg), Decimal.den_eq]

theorem rereadRank_eq_of_isExact {rank : Fin rankLimit} (h : IsExact (readDecimal rank)) :
    rereadRank rank = rank :=
  Fin.ext ((scaledRank_of_isExact h).trans (nearestRank_readDecimal rank))

/-! ## Different numbers -/

theorem finite_inj {negative negative' : Bool} {rank rank' : Fin rankLimit}
    (h : Layout.interchange.finite negative rank = Layout.interchange.finite negative' rank') :
    negative = negative' ∧ rank = rank' := by
  have hparts := (writes_finite negative rank).parts?_eq
  rw [h, (writes_finite negative' rank').parts?_eq, Option.some.injEq] at hparts
  have hdecimal := congrArg Parts.decimal hparts
  rw [Parts.decimal_ofDecimal, Parts.decimal_ofDecimal, ← readDecimal, ← readDecimal] at hdecimal
  have hread := ofDecimal_readDecimal negative rank
  rw [← hdecimal, ofDecimal_readDecimal, finite.injEq] at hread
  refine ⟨?_, hread.2.symm⟩
  have hnegative := congrArg Parts.negative hparts
  rw [Parts.negative_ofDecimal, Parts.negative_ofDecimal] at hnegative
  exact hnegative.symm

end LooseTypes.Json
