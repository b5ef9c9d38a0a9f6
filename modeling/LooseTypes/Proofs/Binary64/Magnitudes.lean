import LooseTypes.Proofs.Binary64.Digits

/-!
# Products and quotients of magnitudes

Rounding keeps the order of values (`nearestRank_mono`), so a product of greater magnitudes is no
smaller (`mulRank_mono`), and a quotient by one or more is no greater than what is divided
(`divRank_le`). Where whole numbers are magnitudes themselves, their product and quotient are rounded
once (`mulRank_natRank`, `divRank_natRank`).
-/

namespace LooseTypes.Binary64

variable {num den num' den' r r' s s' n m : ℕ}

theorem nearestRank_mono (hden : 0 < den) (hden' : 0 < den') (h : num * den' ≤ num' * den) :
    nearestRank num den ≤ nearestRank num' den' := by
  by_contra hlt
  rw [not_le] at hlt
  -- the values would have to lie on either side of the middle between the two magnitudes
  have hden_pos : (0 : ℚ) < den := by exact_mod_cast hden
  have hden_pos' : (0 : ℚ) < den' := by exact_mod_cast hden'
  have hvalues : (num / den : ℚ) ≤ num' / den' := by
    rw [div_le_div_iff₀ hden_pos hden_pos']
    exact_mod_cast h
  have hnear := (nearestRank_near hden (Nat.ne_of_lt hlt)).1
  have hnear' := (nearestRank_near hden' (Nat.ne_of_gt hlt)).1
  have hunits : (units (nearestRank num' den') : ℚ) < units (nearestRank num den) := by
    exact_mod_cast units_lt_units hlt
  have hne : nearestRank num den ≠ nearestRank num' den' := Nat.ne_of_gt hlt
  generalize (units (nearestRank num den) : ℚ) = u at *
  generalize (units (nearestRank num' den') : ℚ) = u' at *
  have habove : u + u' ≤ 2 * (num / den : ℚ) := by
    rw [← sq_le_sq] at hnear
    nlinarith
  have hbelow : 2 * (num' / den' : ℚ) ≤ u + u' := by
    rw [← sq_le_sq] at hnear'
    nlinarith
  have heq : (num / den : ℚ) = num' / den' := by linarith
  rw [div_eq_div_iff (ne_of_gt hden_pos) (ne_of_gt hden_pos')] at heq
  exact hne (nearestRank_congr hden hden' (by exact_mod_cast heq))

/-! ## Order -/

theorem natRank_mono (h : n ≤ m) : natRank n ≤ natRank m :=
  nearestRank_mono Nat.one_pos Nat.one_pos
    (Nat.mul_le_mul_right _ (Nat.mul_le_mul_right _ h))

theorem mulRank_mono (hr : r ≤ r') (hs : s ≤ s') : mulRank r s ≤ mulRank r' s' :=
  nearestRank_mono unitsPerOne_pos unitsPerOne_pos
    (Nat.mul_le_mul_right _ (Nat.mul_le_mul (units_le_units_iff.2 hr) (units_le_units_iff.2 hs)))

theorem divRank_le (h : unitsPerOne ≤ units s) : divRank r s ≤ r :=
  nearestRank_le (Nat.lt_of_lt_of_le unitsPerOne_pos h) (Nat.mul_le_mul_left _ h)

/-! ## The error of rounding -/

/-- Rounding a whole number of units adds at most one part in `2 ^ 53`. -/
theorem units_nearestRank_le (n : ℕ) : 2 ^ 53 * units (nearestRank n 1) ≤ (2 ^ 53 + 1) * n := by
  rw [units_nearestRank Nat.one_pos, Nat.div_one, Nat.one_mul]
  rcases Nat.eq_zero_or_pos (n.log2 - 52) with hzero | hpos
  · rw [hzero, Nat.pow_zero, Nat.mul_one, roundDiv_of_dvd Nat.one_pos (Nat.mod_one n), Nat.div_one]
    exact Nat.mul_le_mul_right n (by decide)
  · have hleading : 2 ^ 52 * 2 ^ (n.log2 - 52) ≤ n := by
      rw [← Nat.pow_add, show 52 + (n.log2 - 52) = n.log2 by omega]
      exact Nat.log2_self_le (ne_zero_of_le_log2 (Nat.succ_pos 52) (by omega))
    have hround := (roundDiv_mul_near .even n (Nat.two_pow_pos (n.log2 - 52))).1
    omega

/-- A product that is well within the range does not overflow, though it is rounded three times. -/
theorem mulRank_natRank_lt (h : n * m ≤ 10 ^ 308) :
    mulRank (natRank n) (natRank m) < rankLimit := by
  have hproduct : 2 ^ 106 * (units (natRank n) * units (natRank m)) ≤
      2 ^ 106 * (maxFinite * unitsPerOne * unitsPerOne) := by
    calc 2 ^ 106 * (units (natRank n) * units (natRank m))
        = 2 ^ 53 * units (natRank n) * (2 ^ 53 * units (natRank m)) := by ring
      _ ≤ (2 ^ 53 + 1) * (n * unitsPerOne) * ((2 ^ 53 + 1) * (m * unitsPerOne)) :=
        Nat.mul_le_mul (units_nearestRank_le _) (units_nearestRank_le _)
      _ = (2 ^ 53 + 1) ^ 2 * (n * m) * (unitsPerOne * unitsPerOne) := by ring
      _ ≤ (2 ^ 53 + 1) ^ 2 * 10 ^ 308 * (unitsPerOne * unitsPerOne) :=
        Nat.mul_le_mul_right _ (Nat.mul_le_mul_left _ h)
      _ ≤ 2 ^ 106 * maxFinite * (unitsPerOne * unitsPerOne) :=
        Nat.mul_le_mul_right _ (by decide +kernel)
      _ = 2 ^ 106 * (maxFinite * unitsPerOne * unitsPerOne) := by ring
  have hlast : mulRank (natRank n) (natRank m) ≤ rankLimit - 1 := by
    refine nearestRank_le unitsPerOne_pos ?_
    rw [units_largest]
    exact Nat.le_of_mul_le_mul_left hproduct (by decide)
  exact Nat.lt_of_le_of_lt hlast (by decide)

/-! ## Whole numbers that are magnitudes -/

theorem mulRank_natRank_one (rank : ℕ) : mulRank rank (natRank 1) = rank := by
  have hone : units (natRank 1) = 1 * unitsPerOne := units_nearestRank_of_le (by decide)
  have hcancel := @nearestRank_mul_right (units rank) 1 unitsPerOne unitsPerOne_pos
  rw [mulRank, hone, Nat.one_mul]
  rw [Nat.one_mul] at hcancel
  rw [hcancel, nearestRank_units]

theorem mulRank_natRank (hn : units (natRank n) = n * unitsPerOne)
    (hm : units (natRank m) = m * unitsPerOne) :
    mulRank (natRank n) (natRank m) = nearestRank (n * m * unitsPerOne) 1 := by
  rw [mulRank, hn, hm]
  refine nearestRank_congr unitsPerOne_pos Nat.one_pos ?_
  ring

theorem divRank_natRank (hn : units (natRank n) = n * unitsPerOne)
    (hm : units (natRank m) = m * unitsPerOne) (hpos : 0 < m) :
    divRank (natRank n) (natRank m) = nearestRank (n * unitsPerOne) m := by
  rw [divRank, hn, hm]
  refine nearestRank_congr (Nat.mul_pos hpos unitsPerOne_pos) hpos ?_
  ring

end LooseTypes.Binary64
