import LooseTypes.Proofs.Decimal
import LooseTypes.Binary64.Nearest
import Mathlib.Tactic.Positivity
import Mathlib.Tactic.Ring

/-!
# The nearest number depends on the value alone

A quotient and its expansion by a common factor have the same nearest number (`ofRatio_congr`), so
neither does it matter how a decimal number is written (`ofDecimal_shift`), nor that exponents far
outside the range are cut short (`ofDecimal_eq_ofRatio`). The magnitude at a rank is its own nearest
one (`nearestRank_units`), and the nearest magnitude to any other value is the value rounded to a
multiple of the distance between neighbours (`units_nearestRank`).
-/

namespace LooseTypes

/-! ## Rounding a quotient -/

section RoundDiv

variable {tie : Tie} {n d k : Nat}

theorem roundDiv_mul_right (hk : 0 < k) : roundDiv tie (n * k) (d * k) = roundDiv tie n d := by
  have hq : n * k / (d * k) = n / d := Nat.mul_div_mul_right n d hk
  have hr : n * k % (d * k) = n % d * k := Nat.mul_mod_mul_right k n d
  have hlt : 2 * (n % d * k) < d * k ↔ 2 * (n % d) < d := by
    rw [← Nat.mul_assoc]
    exact Nat.mul_lt_mul_right hk
  have heq : 2 * (n % d * k) = d * k ↔ 2 * (n % d) = d := by
    rw [← Nat.mul_assoc]
    exact Nat.mul_right_cancel_iff hk
  simp only [roundDiv, hq, hr, hlt, heq, beq_eq_decide]

theorem le_roundDiv (hd : 0 < d) (h : k * d ≤ n) : k ≤ roundDiv tie n d := by
  have hk : k ≤ n / d := (Nat.le_div_iff_mul_le hd).2 h
  rcases roundDiv_eq_or tie n d with he | he <;> omega

theorem roundDiv_le (hd : 0 < d) (h : n ≤ k * d) : roundDiv tie n d ≤ k := by
  rcases Nat.lt_or_eq_of_le h with hlt | rfl
  · have hk : n / d < k := (Nat.div_lt_iff_lt_mul hd).2 hlt
    rcases roundDiv_eq_or tie n d with he | he <;> omega
  · rw [roundDiv_of_dvd hd (Nat.mul_mod_left k d), Nat.mul_div_cancel k hd]

end RoundDiv

theorem ne_zero_of_le_log2 {n k : Nat} (hk : 0 < k) (h : k ≤ n.log2) : n ≠ 0 := by
  rintro rfl
  rw [Nat.log2_zero] at h
  omega

theorem log2_mul_two_pow {n : Nat} (hn : n ≠ 0) (s : Nat) : (n * 2 ^ s).log2 = n.log2 + s := by
  rw [Nat.log2_eq_iff (by positivity), Nat.pow_add, Nat.add_right_comm, Nat.pow_add]
  exact ⟨Nat.mul_le_mul_right _ (Nat.log2_self_le hn),
    Nat.mul_lt_mul_of_pos_right Nat.lt_log2_self (Nat.two_pow_pos s)⟩

namespace Binary64

/-! ## Ranks and magnitudes -/

theorem rankLimit_eq : rankLimit = 2047 * 2 ^ 52 := rfl

theorem one_shiftLeft_eq (k : Nat) : 1 <<< k = 2 ^ k := Nat.one_shiftLeft k

/-- Powers of two that are too large to be computed are compared by their exponents. -/
theorem two_pow_eq_mul {a b c : Nat} (h : c = a + b) : 2 ^ c = 2 ^ a * 2 ^ b := by
  rw [h, Nat.pow_add]

theorem unitsPerOne_eq : unitsPerOne = 2 ^ 1074 := one_shiftLeft_eq 1074

theorem step_eq (rank : Nat) : step rank = rank / 2 ^ 52 - 1 := by
  rw [step, Nat.shiftRight_eq_div_pow]

theorem units_eq_mul (rank : Nat) :
    units rank = (rank - step rank * 2 ^ 52) * 2 ^ step rank := by
  rw [units, Nat.shiftLeft_eq, Nat.shiftLeft_eq]

theorem nearestRank_eq (num den : Nat) :
    nearestRank num den = ((num / den).log2 - 52) * 2 ^ 52 +
      roundDiv .even num (den * 2 ^ ((num / den).log2 - 52)) := by
  simp only [nearestRank, Nat.shiftLeft_eq]

/-- A rank by the distance of its neighbours and the number of such distances up to it. -/
theorem units_eq {s q : Nat} (hle : q ≤ 2 ^ 53) (hge : s = 0 ∨ 2 ^ 52 ≤ q) :
    units (s * 2 ^ 52 + q) = q * 2 ^ s := by
  rcases Nat.lt_or_eq_of_le hle with hlt | rfl
  · have hstep : step (s * 2 ^ 52 + q) = s := by
      rw [step_eq]
      omega
    rw [units_eq_mul, hstep, Nat.add_sub_cancel_left]
  · -- the neighbours above are twice as far apart
    have hstep : step (s * 2 ^ 52 + 2 ^ 53) = s + 1 := by
      rw [step_eq]
      omega
    have hrest : s * 2 ^ 52 + 2 ^ 53 - (s + 1) * 2 ^ 52 = 2 ^ 52 := by omega
    rw [units_eq_mul, hstep, hrest, Nat.pow_succ 2 s, Nat.pow_succ 2 52]
    ring

theorem exists_rank_eq (rank : Nat) :
    ∃ s q, rank = s * 2 ^ 52 + q ∧ q < 2 ^ 53 ∧ (s = 0 ∨ 2 ^ 52 ≤ q) := by
  refine ⟨step rank, rank - step rank * 2 ^ 52, ?_, ?_, ?_⟩ <;> rw [step_eq] <;> omega

section NearestRank

variable {num den k : Nat}

theorem nearestRank_mul_right (hk : 0 < k) :
    nearestRank (num * k) (den * k) = nearestRank num den := by
  have hround : ∀ shift, roundDiv .even (num * k) (den * k * 2 ^ shift) =
      roundDiv .even num (den * 2 ^ shift) := by
    intro shift
    rw [Nat.mul_right_comm, roundDiv_mul_right hk]
  simp only [nearestRank_eq, Nat.mul_div_mul_right num den hk, hround]

theorem nearestRank_of_div_eq_zero (h : 2 * num < den) : nearestRank num den = 0 := by
  have hdiv : num / den = 0 := Nat.div_eq_of_lt (by omega)
  have hmod : num % den = num := Nat.mod_eq_of_lt (by omega)
  simp [nearestRank_eq, roundDiv, hdiv, hmod, h]

/-- The number of distances up to the nearest magnitude has at most 53 bits. -/
theorem roundDiv_shift_le (hden : 0 < den) :
    roundDiv .even num (den * 2 ^ ((num / den).log2 - 52)) ≤ 2 ^ 53 := by
  refine roundDiv_le (by positivity) (Nat.le_of_lt ?_)
  have hlt : num / den < 2 ^ ((num / den).log2 + 1) := Nat.lt_log2_self
  have hpow : 2 ^ ((num / den).log2 + 1) ≤ 2 ^ (53 + ((num / den).log2 - 52)) :=
    Nat.pow_le_pow_right (by decide) (by omega)
  calc num < 2 ^ (53 + ((num / den).log2 - 52)) * den :=
        (Nat.div_lt_iff_lt_mul hden).1 (Nat.lt_of_lt_of_le hlt hpow)
    _ = 2 ^ 53 * (den * 2 ^ ((num / den).log2 - 52)) := by rw [Nat.pow_add]; ring

/-- It has no fewer, unless the neighbours are one unit apart. -/
theorem le_roundDiv_shift (hden : 0 < den) :
    (num / den).log2 - 52 = 0 ∨
      2 ^ 52 ≤ roundDiv .even num (den * 2 ^ ((num / den).log2 - 52)) := by
  rcases Nat.eq_zero_or_pos ((num / den).log2 - 52) with h | h
  · exact .inl h
  · refine .inr (le_roundDiv (by positivity) ?_)
    have hne : num / den ≠ 0 := ne_zero_of_le_log2 (Nat.succ_pos 52) (by omega)
    have hle : 2 ^ (52 + ((num / den).log2 - 52)) ≤ num / den := by
      rw [show 52 + ((num / den).log2 - 52) = (num / den).log2 by omega]
      exact Nat.log2_self_le hne
    calc 2 ^ 52 * (den * 2 ^ ((num / den).log2 - 52))
        = 2 ^ (52 + ((num / den).log2 - 52)) * den := by rw [Nat.pow_add]; ring
      _ ≤ num := (Nat.le_div_iff_mul_le hden).1 hle

/-- The nearest magnitude is the value rounded to a multiple of the distance there. -/
theorem units_nearestRank (hden : 0 < den) :
    units (nearestRank num den) =
      roundDiv .even num (den * 2 ^ ((num / den).log2 - 52)) *
        2 ^ ((num / den).log2 - 52) := by
  rw [nearestRank_eq]
  exact units_eq (roundDiv_shift_le hden) (le_roundDiv_shift hden)

end NearestRank

/-- The distance of neighbours is read off the leading bit of a magnitude. -/
theorem log2_mul_two_pow_sub {s q : Nat} (hlt : q < 2 ^ 53) (hge : s = 0 ∨ 2 ^ 52 ≤ q) :
    (q * 2 ^ s).log2 - 52 = s := by
  rcases Nat.eq_zero_or_pos q with rfl | hq
  · rw [Nat.zero_mul, Nat.log2_zero]
    omega
  · have hlog : q.log2 < 53 := (Nat.log2_lt (Nat.ne_of_gt hq)).2 hlt
    have hge' : s = 0 ∨ 52 ≤ q.log2 := hge.imp_right (Nat.le_log2 (Nat.ne_of_gt hq)).2
    rw [log2_mul_two_pow (Nat.ne_of_gt hq)]
    omega

/-- A magnitude is its own nearest one. -/
theorem nearestRank_units (rank : Nat) : nearestRank (units rank) 1 = rank := by
  obtain ⟨s, q, rfl, hlt, hge⟩ := exists_rank_eq rank
  rw [units_eq (Nat.le_of_lt hlt) hge]
  have hround : roundDiv .even (q * 2 ^ s) (1 * 2 ^ s) = q := by
    rw [Nat.one_mul, roundDiv_of_dvd (by positivity) (Nat.mul_mod_left q _),
      Nat.mul_div_cancel q (by positivity)]
  simp only [nearestRank_eq, Nat.div_one, log2_mul_two_pow_sub hlt hge, hround]

/-! ## Quotients and decimal numbers -/

theorem ofRank_inj {negative : Bool} {r s : Nat} (hs : s < rankLimit)
    (h : ofRank negative r = ofRank negative s) : r = s := by
  rw [ofRank, ofRank, dif_pos hs] at h
  split at h
  next => simpa using h
  next => cases h

theorem ofRank_of_lt (negative : Bool) (rank : Fin rankLimit) :
    ofRank negative rank = .finite negative rank := dif_pos rank.isLt

theorem unitsPerOne_pos : 0 < unitsPerOne := by
  rw [unitsPerOne_eq]
  positivity

theorem nearestRank_congr {num den num' den' : Nat} (hden : 0 < den) (hden' : 0 < den')
    (h : num * den' = num' * den) : nearestRank num den = nearestRank num' den' := by
  rw [← nearestRank_mul_right hden', h, Nat.mul_comm den den', nearestRank_mul_right hden]

/-- Equal quotients have the same nearest number. -/
theorem ofRatio_congr {negative : Bool} {num den num' den' : Nat} (hden : 0 < den)
    (hden' : 0 < den') (h : num * den' = num' * den) :
    ofRatio negative num den = ofRatio negative num' den' := by
  have hcross : num * unitsPerOne * den' = num' * unitsPerOne * den := by
    rw [Nat.mul_right_comm, h, Nat.mul_right_comm]
  rw [ofRatio, ofRatio, nearestRank_congr hden hden' hcross]

theorem ofRatio_units (negative : Bool) (rank : Nat) :
    ofRatio negative (units rank) unitsPerOne = ofRank negative rank := by
  have hrank : nearestRank (units rank * unitsPerOne) (1 * unitsPerOne) = rank := by
    rw [nearestRank_mul_right unitsPerOne_pos, nearestRank_units]
  rw [Nat.one_mul] at hrank
  rw [ofRatio, hrank]

/-! ## Exponents far outside the range -/

theorem log2_mul_unitsPerOne {n : Nat} (hn : n ≠ 0) : (n * unitsPerOne).log2 = n.log2 + 1074 := by
  rw [unitsPerOne_eq, log2_mul_two_pow hn]

theorem rankLimit_le_nearestRank {num : Nat} (h : 1024 ≤ num.log2) :
    rankLimit ≤ nearestRank (num * unitsPerOne) 1 := by
  have hne : num ≠ 0 := ne_zero_of_le_log2 (by decide) h
  have hround := @le_roundDiv_shift (num * unitsPerOne) 1 Nat.one_pos
  rw [Nat.div_one, log2_mul_unitsPerOne hne] at hround
  rw [nearestRank_eq, rankLimit_eq, Nat.div_one, log2_mul_unitsPerOne hne]
  omega

theorem ofRatio_eq_infinite {num : Nat} (negative : Bool) (h : 1024 ≤ num.log2) :
    ofRatio negative num 1 = .infinite negative := by
  rw [ofRatio, ofRank, dif_neg (Nat.not_lt.2 (rankLimit_le_nearestRank h))]

theorem ofRatio_eq_zero {num den : Nat} (negative : Bool)
    (h : 2 * (num * unitsPerOne) < den) : ofRatio negative num den = zero negative := by
  rw [ofRatio, nearestRank_of_div_eq_zero h]
  exact dif_pos (by decide)

theorem ofInt_zero : ofInt 0 = zero false :=
  ofRatio_eq_zero false (by rw [Int.natAbs_zero, Nat.zero_mul]; exact Nat.one_pos)

/-- The short cuts for exponents far outside the range give what rounding would. -/
theorem ofDecimal_eq_ofRatio (negative : Bool) (d : Decimal) :
    ofDecimal negative d = ofRatio negative d.num d.den := by
  unfold ofDecimal
  split
  next hzero =>
    have hnum : d.num = 0 := by rw [Decimal.num_eq, hzero, Nat.zero_mul]
    rw [ofRatio_eq_zero negative (by rw [hnum, Nat.zero_mul]; exact d.den_pos)]
  next hne =>
    split
    next hbig =>
      have hden : d.den = 1 := by
        rw [Decimal.den_eq, show (-d.exponent).toNat = 0 by omega, Nat.pow_zero]
      have hle : 2 ^ (3 * d.exponent.toNat) ≤ d.num := by
        calc 2 ^ (3 * d.exponent.toNat) = (2 ^ 3) ^ d.exponent.toNat := Nat.pow_mul ..
          _ ≤ 10 ^ d.exponent.toNat := Nat.pow_le_pow_left (by decide) _
          _ ≤ d.num := Nat.le_mul_of_pos_left _ (Nat.pos_of_ne_zero hne)
      have hlog : 3 * d.exponent.toNat ≤ d.num.log2 :=
        (Nat.le_log2 (Nat.ne_of_gt (Nat.lt_of_lt_of_le (Nat.two_pow_pos _) hle))).2 hle
      have hnum : 1024 ≤ d.num.log2 := by omega
      rw [hden, ofRatio_eq_infinite negative hnum]
    next =>
      split
      next hsmall =>
        rw [Int.ofNat_eq_natCast] at hsmall
        have hnum : d.num = d.coefficient := by
          rw [Decimal.num_eq, show d.exponent.toNat = 0 by omega, Nat.pow_zero, Nat.mul_one]
        refine (ofRatio_eq_zero negative ?_).symm
        rw [hnum]
        calc 2 * (d.coefficient * unitsPerOne)
            ≤ 2 * (2 ^ (d.coefficient.log2 + 1) * unitsPerOne) :=
              Nat.mul_le_mul_left 2 (Nat.mul_le_mul_right _ (Nat.le_of_lt Nat.lt_log2_self))
          _ = 2 ^ (d.coefficient.log2 + 1) * (2 * unitsPerOne) := by ring
          _ < 10 ^ (d.coefficient.log2 + 1) * 10 ^ 400 :=
              Nat.mul_lt_mul_of_le_of_lt (Nat.pow_le_pow_left (by decide) _) (by decide +kernel)
                (Nat.pow_pos (by decide))
          _ = 10 ^ (d.coefficient.log2 + 1 + 400) := by rw [← Nat.pow_add]
          _ ≤ d.den := Nat.pow_le_pow_right (by decide) (by omega)
      next => rfl

/-- Zeros at the end of the coefficient can be moved into the exponent. -/
theorem ofDecimal_shift (negative : Bool) (coefficient : Nat) (exponent : Int) (k : Nat) :
    ofDecimal negative ⟨coefficient * 10 ^ k, exponent - k⟩ =
      ofDecimal negative ⟨coefficient, exponent⟩ := by
  rw [ofDecimal_eq_ofRatio, ofDecimal_eq_ofRatio]
  refine ofRatio_congr (Decimal.den_pos _) (Decimal.den_pos _) ?_
  simp only [Decimal.num_eq, Decimal.den_eq]
  -- both sides are the coefficient with one and the same power of ten
  have hexponents : k + (exponent - k).toNat + (-exponent).toNat =
      exponent.toNat + (-(exponent - k)).toNat := by omega
  calc coefficient * 10 ^ k * 10 ^ (exponent - k).toNat * 10 ^ (-exponent).toNat
      = coefficient * 10 ^ (k + (exponent - k).toNat + (-exponent).toNat) := by ring
    _ = coefficient * 10 ^ exponent.toNat * 10 ^ (-(exponent - k)).toNat := by
      rw [hexponents, Nat.pow_add, Nat.mul_assoc]

end Binary64

end LooseTypes
