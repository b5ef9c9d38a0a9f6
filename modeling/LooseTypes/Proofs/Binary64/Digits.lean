import LooseTypes.Proofs.Binary64.Rounded

/-!
# Seventeen digits are enough

The other magnitudes are so far from one of them that a value within `2 ^ -54` of it, in proportion,
is rounded to it (`nearestRank_eq_of_near`). The nearest decimal number of seventeen digits is as near,
so it reads back (`exists_neighbour?_seventeen`), and the shortest one has no more digits
(`coefficient_shortest_lt`).
-/

namespace LooseTypes

theorem Decimal.num_div_den (d : Decimal) : (d.num : ℚ) / d.den = d.coefficient * 10 ^ d.exponent := by
  have hten : (10 : ℚ) ≠ 0 := by norm_num
  have hsplit : d.exponent = d.exponent.toNat - (-d.exponent).toNat := by omega
  rw [num_eq, den_eq, hsplit, zpow_sub₀ hten, zpow_natCast, zpow_natCast, ← hsplit]
  push_cast
  rw [mul_div_assoc]

namespace Binary64

variable {rank r num den : ℕ}

/-! ## The gap around a magnitude -/

theorem units_gap_above (h : rank < r) : units rank + 2 ^ 53 * units rank ≤ 2 ^ 53 * units r := by
  obtain ⟨s, q, rfl, hlt, hge⟩ := exists_rank_eq rank
  have hfar := le_units_of_lt (Nat.le_of_lt hlt) hge h
  rw [units_eq (Nat.le_of_lt hlt) hge]
  calc q * 2 ^ s + 2 ^ 53 * (q * 2 ^ s) ≤ 2 ^ 53 * 2 ^ s + 2 ^ 53 * (q * 2 ^ s) :=
        Nat.add_le_add_right (Nat.mul_le_mul_right _ (Nat.le_of_lt hlt)) _
    _ = 2 ^ 53 * ((q + 1) * 2 ^ s) := by ring
    _ ≤ 2 ^ 53 * units r := Nat.mul_le_mul_left _ hfar

theorem units_gap_below (h : r < rank) : units rank + 2 ^ 53 * units r ≤ 2 ^ 53 * units rank := by
  obtain ⟨s, q, rfl, hlt, hge⟩ := exists_rank_eq rank
  rw [units_eq (Nat.le_of_lt hlt) hge]
  rcases units_le_of_lt (Nat.le_of_lt hlt) hge h with hfar | ⟨hs, rfl⟩
  · calc q * 2 ^ s + 2 ^ 53 * units r ≤ 2 ^ 53 * 2 ^ s + 2 ^ 53 * units r :=
          Nat.add_le_add_right (Nat.mul_le_mul_right _ (Nat.le_of_lt hlt)) _
      _ = 2 ^ 53 * (units r + 2 ^ s) := by ring
      _ ≤ 2 ^ 53 * (q * 2 ^ s) := Nat.mul_le_mul_left _ hfar
  · -- the neighbours below are twice as near
    obtain ⟨t, rfl⟩ := Nat.exists_eq_add_of_lt hs
    have hprevious : units ((0 + t) * 2 ^ 52 + (2 ^ 53 - 1)) = (2 ^ 53 - 1) * 2 ^ (0 + t) :=
      units_eq (by decide) (.inr (by decide))
    have hle : units r ≤ (2 ^ 53 - 1) * 2 ^ (0 + t) := by
      rw [← hprevious]
      exact units_le_units_iff.2 (by omega)
    rw [Nat.pow_succ 2 (0 + t)]
    generalize 2 ^ (0 + t) = u at hle
    omega

theorem units_le_abs_sub (h : r ≠ rank) : (units rank : ℚ) ≤ 2 ^ 53 * |(units r : ℚ) - units rank| := by
  rcases Nat.lt_or_gt_of_ne h with hlt | hgt
  · have hgap : (units rank + 2 ^ 53 * units r : ℚ) ≤ 2 ^ 53 * units rank := by
      exact_mod_cast units_gap_below hlt
    have hneg := neg_le_abs ((units r : ℚ) - units rank)
    linarith
  · have hgap : (units rank + 2 ^ 53 * units rank : ℚ) ≤ 2 ^ 53 * units r := by
      exact_mod_cast units_gap_above hgt
    have hle := le_abs_self ((units r : ℚ) - units rank)
    linarith

/-- What is near enough to a magnitude is rounded to it. -/
theorem nearestRank_eq_of_near (hden : 0 < den)
    (h : 2 ^ 54 * |(num / den : ℚ) - units rank| < units rank) : nearestRank num den = rank := by
  by_contra hne
  have hnear := (nearestRank_near hden (Ne.symm hne)).1
  have hgap := units_le_abs_sub hne
  have htriangle := abs_sub_le (units (nearestRank num den) : ℚ) (num / den) (units rank)
  rw [abs_sub_comm _ (num / den : ℚ)] at htriangle
  linarith

/-! ## The leading digit -/

theorem lt_ten_pow_length_digits (n : ℕ) : n < 10 ^ (digits n).length :=
  (Nat.length_toDigits_le_iff (by decide) (length_digits_pos n)).1 (Nat.le_refl _)

theorem ten_pow_length_digits_le {n : ℕ} (hn : 0 < n) : 10 ^ ((digits n).length - 1) ≤ n := by
  rcases Nat.eq_zero_or_pos ((digits n).length - 1) with hzero | hpos
  · rw [hzero]
    exact hn
  · apply Nat.le_of_not_lt
    intro hlt
    have hle := (Nat.length_toDigits_le_iff (by decide) hpos).2 hlt
    change (digits n).length ≤ _ at hle
    omega

/-- The digits of a quotient show its size. -/
theorem digits_div_spec {n d : ℕ} (hd : 0 < d) (h : d ≤ n) :
    10 ^ ((digits (n / d)).length - 1) * d ≤ n ∧ n < 10 ^ (digits (n / d)).length * d :=
  ⟨(Nat.le_div_iff_mul_le hd).1 (ten_pow_length_digits_le (Nat.div_pos h hd)),
    (Nat.div_lt_iff_lt_mul hd).1 (lt_ten_pow_length_digits (n / d))⟩

/-- A positive magnitude is between the power of ten of its leading digit and the next one. -/
theorem leadingExponent_spec (h : 0 < units rank) :
    (10 : ℚ) ^ leadingExponent rank ≤ magnitude rank ∧
      magnitude rank < 10 ^ (leadingExponent rank + 1) := by
  have hone : (0 : ℚ) < unitsPerOne := by exact_mod_cast unitsPerOne_pos
  rw [magnitude, le_div_iff₀ hone, div_lt_iff₀ hone]
  unfold leadingExponent
  dsimp only
  split
  next hle =>
    have hlength := length_digits_pos (units rank / unitsPerOne)
    obtain ⟨hlow, hhigh⟩ := digits_div_spec unitsPerOne_pos hle
    generalize (digits (units rank / unitsPerOne)).length = length at *
    have hsucc : Int.ofNat (length - 1) + 1 = (length : ℤ) := by
      rw [Int.ofNat_eq_natCast]
      omega
    rw [hsucc, Int.ofNat_eq_natCast, zpow_natCast, zpow_natCast]
    exact ⟨by exact_mod_cast hlow, by exact_mod_cast hhigh⟩
  next hlt =>
    -- the leading digit is as far behind the point as the quotient the other way has digits
    have hlength := length_digits_pos ((unitsPerOne - 1) / units rank)
    obtain ⟨hlow, hhigh⟩ := digits_div_spec h (Nat.le_pred_of_lt (Nat.lt_of_not_le hlt))
    rw [Nat.pred_eq_sub_one] at hlow hhigh
    generalize (digits ((unitsPerOne - 1) / units rank)).length = length at *
    obtain ⟨k, rfl⟩ := Nat.exists_eq_add_of_lt hlength
    have hsucc : -Int.ofNat (0 + k + 1) + 1 = -(k : ℤ) := by
      rw [Int.ofNat_eq_natCast]
      omega
    rw [hsucc, Int.ofNat_eq_natCast, zpow_neg, zpow_neg, zpow_natCast, zpow_natCast,
      inv_mul_le_iff₀ (by positivity), lt_inv_mul_iff₀ (by positivity)]
    have hpos := unitsPerOne_pos
    have hlow' : 10 ^ k * units rank < unitsPerOne := by
      rw [Nat.zero_add, Nat.add_sub_cancel] at hlow
      omega
    have hhigh' : unitsPerOne ≤ 10 ^ (0 + k + 1) * units rank := by omega
    exact ⟨by exact_mod_cast hhigh', by exact_mod_cast hlow'⟩

/-! ## The candidates of a magnitude -/

theorem roundDiv_mul_near (tie : Tie) (n : ℕ) {d : ℕ} (hd : 0 < d) :
    2 * (roundDiv tie n d * d) ≤ 2 * n + d ∧ 2 * n ≤ 2 * (roundDiv tie n d * d) + d := by
  have hsplit := Nat.div_add_mod n d
  have hmod := Nat.mod_lt n hd
  rw [Nat.mul_comm] at hsplit
  unfold roundDiv
  dsimp only
  split
  next hstays =>
    rw [Bool.or_eq_true, Bool.and_eq_true, decide_eq_true_eq, beq_iff_eq] at hstays
    omega
  next hgoes =>
    rw [Bool.or_eq_true, decide_eq_true_eq, not_or] at hgoes
    rw [Nat.add_one_mul (n / d)]
    omega

theorem abs_roundDiv_sub_le (tie : Tie) (n : ℕ) {d : ℕ} (hd : 0 < d) :
    |(roundDiv tie n d : ℚ) - n / d| ≤ 1 / 2 := by
  have hd' : (0 : ℚ) < d := by exact_mod_cast hd
  obtain ⟨habove, hbelow⟩ := roundDiv_mul_near tie n hd
  have habove' : (2 * (roundDiv tie n d * d) : ℚ) ≤ 2 * n + d := by exact_mod_cast habove
  have hbelow' : (2 * n : ℚ) ≤ 2 * (roundDiv tie n d * d) + d := by exact_mod_cast hbelow
  have hvalue : (n : ℚ) = n / d * d := (div_mul_cancel₀ _ (ne_of_gt hd')).symm
  rw [hvalue] at habove' hbelow'
  rw [abs_le]
  constructor
  · refine le_of_mul_le_mul_right ?_ hd'
    linarith
  · refine le_of_mul_le_mul_right ?_ hd'
    linarith

theorem units_div_ten_zpow (rank : ℕ) (x : ℤ) :
    ((units rank * 10 ^ (-x).toNat : ℕ) : ℚ) / (unitsPerOne * 10 ^ x.toNat : ℕ) =
      magnitude rank / 10 ^ x := by
  have hten : (10 : ℚ) ≠ 0 := by norm_num
  have hsplit : x = x.toNat - (-x).toNat := by omega
  rw [magnitude, hsplit, zpow_sub₀ hten, zpow_natCast, zpow_natCast, ← hsplit]
  push_cast
  field_simp

section Neighbour

variable {tie : Tie} {count : ℕ} {d : Decimal}

theorem readsBack_withDigits {c : ℕ} {x : ℤ}
    (h : nearestRank ((⟨c, x⟩ : Decimal).num * unitsPerOne) (⟨c, x⟩ : Decimal).den = rank) :
    readsBack rank (withDigits count c x) = true := by
  rw [readsBack, beq_iff_eq, ofDecimal_eq_ofRatio,
    ofRatio_congr (Decimal.den_pos _) (Decimal.den_pos _) (num_mul_den_withDigits count c x),
    ofRatio, h]

/-- A coefficient of seventeen digits that is off by one half at most is rounded to the magnitude. -/
theorem nearestRank_of_seventeen {near : ℕ} {x : ℤ}
    (hlow : (10 : ℚ) ^ (16 + x) ≤ magnitude rank)
    (hround : |(near : ℚ) - magnitude rank / 10 ^ x| ≤ 1 / 2) :
    nearestRank ((⟨near, x⟩ : Decimal).num * unitsPerOne) (⟨near, x⟩ : Decimal).den = rank := by
  have hten : (0 : ℚ) < 10 ^ x := zpow_pos (by norm_num) x
  have hone : (0 : ℚ) < unitsPerOne := by exact_mod_cast unitsPerOne_pos
  have hvalue := Decimal.num_div_den ⟨near, x⟩
  dsimp only at hvalue
  have hunits : (units rank : ℚ) = magnitude rank * unitsPerOne :=
    (div_mul_cancel₀ _ (ne_of_gt hone)).symm
  have herror : (((⟨near, x⟩ : Decimal).num * unitsPerOne : ℕ) : ℚ) / (⟨near, x⟩ : Decimal).den -
      units rank = (near - magnitude rank / 10 ^ x) * (10 ^ x * unitsPerOne) := by
    rw [Nat.cast_mul, mul_div_right_comm, hvalue, hunits]
    field_simp
  refine nearestRank_eq_of_near (Decimal.den_pos _) ?_
  rw [herror, abs_mul, abs_of_pos (mul_pos hten hone), hunits]
  rw [zpow_add₀ (by norm_num)] at hlow
  generalize (unitsPerOne : ℚ) = one at hone ⊢
  generalize |near - magnitude rank / 10 ^ x| = error at hround ⊢
  calc (2 : ℚ) ^ 54 * (error * (10 ^ x * one))
      ≤ 2 ^ 54 * (1 / 2 * (10 ^ x * one)) :=
        mul_le_mul_of_nonneg_left
          (mul_le_mul_of_nonneg_right hround (le_of_lt (mul_pos hten hone))) (by norm_num)
    _ = 2 ^ 53 * (10 ^ x * one) := by ring
    _ < 10 ^ (16 : ℤ) * (10 ^ x * one) :=
      mul_lt_mul_of_pos_right (by norm_num) (mul_pos hten hone)
    _ = 10 ^ (16 : ℤ) * 10 ^ x * one := (mul_assoc ..).symm
    _ ≤ magnitude rank * one := mul_le_mul_of_nonneg_right hlow (le_of_lt hone)

/-- The nearer candidate of seventeen digits reads back. -/
theorem exists_neighbour?_seventeen (tie : Tie) (h : 0 < units rank) :
    ∃ d, neighbour? tie rank 17 = some d := by
  obtain ⟨hlow, -⟩ := leadingExponent_spec h
  have hx : leadingExponent rank = 16 + (leadingExponent rank + 1 - (17 : ℕ)) := by omega
  rw [neighbour?_eq]
  dsimp only
  rw [hx] at hlow
  generalize leadingExponent rank + 1 - (17 : ℕ) = x at hlow ⊢
  have hD : 0 < unitsPerOne * 10 ^ x.toNat := Nat.mul_pos unitsPerOne_pos (Nat.pow_pos (by decide))
  have hround := abs_roundDiv_sub_le tie (units rank * 10 ^ (-x).toNat) hD
  rw [units_div_ten_zpow] at hround
  have hread := @readsBack_withDigits rank 17 _ x (nearestRank_of_seventeen hlow hround)
  rw [List.map_cons, List.find?_cons_of_pos hread]
  exact ⟨_, rfl⟩

theorem coefficient_neighbour?_le (hpos : 0 < units rank) (h : neighbour? tie rank count = some d) :
    d.coefficient < 10 ^ count ∨ d.coefficient = 1 := by
  obtain ⟨-, hhigh⟩ := leadingExponent_spec hpos
  have hx : leadingExponent rank + 1 = count + (leadingExponent rank + 1 - count) := by omega
  rw [neighbour?_eq] at h
  dsimp only at h
  rw [hx] at hhigh
  generalize leadingExponent rank + 1 - count = x at h hhigh
  have hD : 0 < unitsPerOne * 10 ^ x.toNat := Nat.mul_pos unitsPerOne_pos (Nat.pow_pos (by decide))
  have hquotient : units rank * 10 ^ (-x).toNat / (unitsPerOne * 10 ^ x.toNat) < 10 ^ count := by
    have hten : (0 : ℚ) < 10 ^ x := zpow_pos (by norm_num) x
    rw [zpow_add₀ (by norm_num), ← div_lt_iff₀ hten, ← units_div_ten_zpow,
      div_lt_iff₀ (by exact_mod_cast hD), zpow_natCast] at hhigh
    exact (Nat.div_lt_iff_lt_mul hD).2 (by exact_mod_cast hhigh)
  obtain ⟨c, hc, rfl⟩ := List.mem_map.1 (List.mem_of_find?_eq_some h)
  have hle : c ≤ 10 ^ count := by
    have hround := roundDiv_eq_or tie (units rank * 10 ^ (-x).toNat) (unitsPerOne * 10 ^ x.toNat)
    rcases List.mem_pair.1 hc with rfl | rfl
    · omega
    · split <;> omega
  rw [withDigits_eq]
  split
  next => exact .inr rfl
  next hne => exact .inl (Nat.lt_of_le_of_ne hle hne)

end Neighbour

/-- A shortest decimal number has seventeen digits at most. -/
theorem coefficient_shortest_lt (tie : Tie) (rank : ℕ) :
    (shortest tie rank).coefficient < 10 ^ 17 := by
  rcases Nat.eq_zero_or_pos rank with rfl | hrank
  · exact Nat.pow_pos (by decide)
  · have hpos : 0 < units rank :=
      Nat.pos_of_ne_zero fun h => Nat.ne_of_gt hrank (units_eq_zero_iff.1 h)
    obtain ⟨last, hlast⟩ := exists_neighbour?_seventeen tie hpos
    have hsome : ((List.range' 1 17).findSome? (neighbour? tie rank)).isSome = true :=
      List.findSome?_isSome_iff.2 ⟨17, by decide, by rw [hlast]; rfl⟩
    obtain ⟨d, hd⟩ := Option.isSome_iff_exists.1 hsome
    rw [shortest, if_neg (Nat.ne_of_gt hrank), hd, Option.getD_some]
    obtain ⟨count, hcount, hneighbour⟩ := List.exists_of_findSome?_eq_some hd
    have hle : 10 ^ count ≤ 10 ^ 17 := Nat.pow_le_pow_right (by decide) (by simp at hcount; omega)
    rcases coefficient_neighbour?_le hpos hneighbour with hlt | hone
    · exact Nat.lt_of_lt_of_le hlt hle
    · rw [hone]
      decide

end Binary64

end LooseTypes
