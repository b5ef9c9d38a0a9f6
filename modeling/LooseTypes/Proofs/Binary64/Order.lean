import LooseTypes.Proofs.Binary64.Integer
import Mathlib.Tactic.Linarith

/-!
# The order of magnitudes

A greater rank is a greater magnitude (`units_le_units_iff`), and rounding keeps the order: a value
on one side of a magnitude is rounded to no magnitude on the other side (`le_nearestRank`,
`nearestRank_le`). From `2 ^ 53` on all magnitudes are whole numbers (`unitsPerOne_dvd_units`), and
the whole part of a magnitude is one itself (`units_nearestRank_wholePart`).
-/

namespace LooseTypes.Binary64

variable {r s rank num den : Nat}

/-! ## Ranks in order -/

theorem units_lt_units (h : r < s) : units r < units s := by
  obtain ⟨a, p, rfl, hp, hpge⟩ := exists_rank_eq r
  obtain ⟨b, q, rfl, hq, hqge⟩ := exists_rank_eq s
  rw [units_eq (Nat.le_of_lt hp) hpge, units_eq (Nat.le_of_lt hq) hqge]
  rcases Nat.lt_trichotomy a b with hlt | rfl | hgt
  · -- the neighbours of the greater rank are at least twice as far apart
    have hqge' : 2 ^ 52 ≤ q := hqge.resolve_left (by omega)
    calc p * 2 ^ a < 2 ^ 53 * 2 ^ a := Nat.mul_lt_mul_of_pos_right hp (Nat.two_pow_pos a)
      _ = 2 ^ 52 * 2 ^ (a + 1) := by rw [Nat.pow_succ 2 a]; ring
      _ ≤ q * 2 ^ b := Nat.mul_le_mul hqge' (Nat.pow_le_pow_right (by decide) hlt)
  · exact Nat.mul_lt_mul_of_pos_right (by omega) (Nat.two_pow_pos a)
  · omega

theorem units_le_units_iff : units r ≤ units s ↔ r ≤ s := by
  constructor
  · intro h
    apply Nat.le_of_not_lt
    intro hlt
    exact absurd (units_lt_units hlt) (by omega)
  · intro h
    rcases Nat.lt_or_eq_of_le h with hlt | rfl
    · exact Nat.le_of_lt (units_lt_units hlt)
    · exact Nat.le_refl _

/-! ## Rounding keeps the order -/

theorem le_nearestRank (hden : 0 < den) (h : units rank * den ≤ num) :
    rank ≤ nearestRank num den := by
  rw [← units_le_units_iff, units_nearestRank hden]
  have hround := @le_roundDiv_shift num den hden
  obtain ⟨s, q, rfl, hlt, hge⟩ := exists_rank_eq rank
  rw [units_eq (Nat.le_of_lt hlt) hge] at h ⊢
  generalize (num / den).log2 - 52 = shift at hround ⊢
  rcases Nat.lt_or_ge s shift with hs | hs
  · have hround' := hround.resolve_left (by omega)
    calc q * 2 ^ s ≤ 2 ^ 53 * 2 ^ s := Nat.mul_le_mul_right _ (Nat.le_of_lt hlt)
      _ = 2 ^ 52 * 2 ^ (s + 1) := by rw [Nat.pow_succ 2 s]; ring
      _ ≤ _ := Nat.mul_le_mul hround' (Nat.pow_le_pow_right (by decide) hs)
  · -- the magnitude is a multiple of the distance there
    obtain ⟨k, rfl⟩ := Nat.exists_eq_add_of_le hs
    have hsplit : q * 2 ^ (shift + k) = q * 2 ^ k * 2 ^ shift := by rw [Nat.pow_add]; ring
    rw [hsplit] at h ⊢
    refine Nat.mul_le_mul_right _ (le_roundDiv (by positivity) ?_)
    calc q * 2 ^ k * (den * 2 ^ shift) = q * 2 ^ k * 2 ^ shift * den := by ring
      _ ≤ num := h

theorem nearestRank_le (hden : 0 < den) (h : num ≤ units rank * den) :
    nearestRank num den ≤ rank := by
  rw [← units_le_units_iff, units_nearestRank hden]
  obtain ⟨s, q, rfl, hlt, hge⟩ := exists_rank_eq rank
  rw [units_eq (Nat.le_of_lt hlt) hge] at h ⊢
  have hshift : (num / den).log2 - 52 ≤ s := by
    rw [← log2_mul_two_pow_sub hlt hge]
    have hdiv : num / den ≤ q * 2 ^ s := Nat.div_le_of_le_mul (by rwa [Nat.mul_comm])
    rcases Nat.eq_zero_or_pos (num / den) with hzero | hpos
    · rw [hzero, Nat.log2_zero]
      omega
    · have hlog : (num / den).log2 ≤ (q * 2 ^ s).log2 :=
        (Nat.le_log2 (by omega)).2 (Nat.le_trans (Nat.log2_self_le (by omega)) hdiv)
      omega
  obtain ⟨k, hk⟩ := Nat.exists_eq_add_of_le hshift
  generalize (num / den).log2 - 52 = shift at hk ⊢
  subst hk
  have hsplit : q * 2 ^ (shift + k) = q * 2 ^ k * 2 ^ shift := by rw [Nat.pow_add]; ring
  rw [hsplit] at h ⊢
  refine Nat.mul_le_mul_right _ (roundDiv_le (by positivity) ?_)
  calc num ≤ q * 2 ^ k * 2 ^ shift * den := h
    _ = q * 2 ^ k * (den * 2 ^ shift) := by ring

/-! ## Whole magnitudes -/

/-- A great magnitude is a multiple of a power of two, since it has 53 bits at most. -/
theorem two_pow_dvd_units {k : Nat} (h : 2 ^ 53 * 2 ^ k ≤ units rank) :
    2 ^ (k + 1) ∣ units rank := by
  obtain ⟨s, q, rfl, hlt, hge⟩ := exists_rank_eq rank
  rw [units_eq (Nat.le_of_lt hlt) hge] at h ⊢
  have hks : k < s := by
    apply Nat.lt_of_not_le
    intro hle
    have : q * 2 ^ s < 2 ^ 53 * 2 ^ k :=
      Nat.mul_lt_mul_of_lt_of_le hlt (Nat.pow_le_pow_right (by decide) hle) (Nat.two_pow_pos k)
    omega
  exact Nat.dvd_trans (Nat.pow_dvd_pow 2 hks) (Nat.dvd_mul_left _ q)

theorem unitsPerOne_dvd_units (h : 2 ^ 53 * unitsPerOne ≤ units rank) :
    unitsPerOne ∣ units rank := by
  obtain ⟨k, hk⟩ : ∃ k, unitsPerOne = 2 ^ k := ⟨1074, unitsPerOne_eq⟩
  rw [hk] at h ⊢
  exact Nat.dvd_trans (Nat.pow_dvd_pow 2 (Nat.le_succ k)) (two_pow_dvd_units h)

/-- A number from `2 ^ 53` on is an integer. -/
theorem exists_eq_intCast_of_le {x : Binary64} {q : ℚ} (h : x.value? = some q)
    (hq : 9007199254740992 ≤ q) : ∃ n : ℤ, q = n := by
  cases x with
  | nan => cases h
  | infinite negative => cases h
  | finite negative rank =>
    have hunits := abs_mul_unitsPerOne h
    have hdvd := @unitsPerOne_dvd_units rank
    have hone := unitsPerOne_pos
    rw [abs_of_nonneg (by linarith)] at hunits
    generalize units rank = u at hdvd hunits
    generalize unitsPerOne = one at hdvd hone hunits
    have hone' : (0 : ℚ) < one := Nat.cast_pos.2 hone
    have hle : (9007199254740992 : ℚ) * one ≤ u := by
      rw [← hunits]
      exact mul_le_mul_of_nonneg_right hq (le_of_lt hone')
    obtain ⟨k, rfl⟩ := hdvd (by exact_mod_cast hle)
    refine ⟨k, mul_right_cancel₀ (ne_of_gt hone') ?_⟩
    rw [hunits, Nat.cast_mul, mul_comm, Int.cast_natCast]

/-- Only below `2 ^ 53` are there numbers between integers. -/
theorem lt_of_lt_intCast {x : Binary64} {q : ℚ} {k : ℤ} (h : x.value? = some q) (hlt : q < k)
    (hnear : k - q < 1) : q < 9007199254740992 := by
  by_contra hlarge
  obtain ⟨n, rfl⟩ := exists_eq_intCast_of_le h (not_lt.1 hlarge)
  have hsucc : (n : ℚ) + 1 ≤ k := by exact_mod_cast hlt
  linarith

theorem natAbs_truncate (negative : Bool) (rank : Fin rankLimit) :
    (truncate (.finite negative rank)).natAbs = units rank / unitsPerOne := by
  cases negative with
  | false => exact Int.natAbs_natCast _
  | true => exact (Int.natAbs_neg _).trans (Int.natAbs_natCast _)

theorem units_nearestRank_wholePart (rank : Nat) :
    units (nearestRank (units rank / unitsPerOne * unitsPerOne) 1) =
      units rank / unitsPerOne * unitsPerOne := by
  rcases Nat.lt_or_ge (units rank) (2 ^ 53 * unitsPerOne) with hlt | hge
  · exact units_nearestRank_of_le (Nat.le_of_lt ((Nat.div_lt_iff_lt_mul unitsPerOne_pos).2 hlt))
  · rw [Nat.div_mul_cancel (unitsPerOne_dvd_units hge), nearestRank_units]

/-- Below `2 ^ 53` every whole number is a magnitude, so a value that is rounded to a magnitude
between two of them is between them itself. -/
theorem div_eq_of_nearestRank_eq (hden : 0 < den)
    (hread : nearestRank (num * unitsPerOne) den = rank)
    (hfraction : ¬ unitsPerOne ∣ units rank) : num / den = units rank / unitsPerOne := by
  have hsmall : units rank < 2 ^ 53 * unitsPerOne :=
    Nat.lt_of_not_le fun h => hfraction (unitsPerOne_dvd_units h)
  have hwhole : units rank / unitsPerOne < 2 ^ 53 := (Nat.div_lt_iff_lt_mul unitsPerOne_pos).2 hsmall
  have hmod : 0 < units rank % unitsPerOne :=
    Nat.pos_of_ne_zero fun h => hfraction (Nat.dvd_of_mod_eq_zero h)
  have hsplit := Nat.div_add_mod (units rank) unitsPerOne
  have hlt := Nat.mod_lt (units rank) unitsPerOne_pos
  rw [Nat.mul_comm] at hsplit
  generalize units rank / unitsPerOne = k at hwhole hsplit ⊢
  have hlow : units (nearestRank (k * unitsPerOne) 1) = k * unitsPerOne :=
    units_nearestRank_of_le (by omega)
  have hhigh : units (nearestRank ((k + 1) * unitsPerOne) 1) = (k + 1) * unitsPerOne :=
    units_nearestRank_of_le (by omega)
  have hsucc : (k + 1) * unitsPerOne = k * unitsPerOne + unitsPerOne := Nat.succ_mul k unitsPerOne
  apply Nat.div_eq_of_lt_le
  · apply Nat.le_of_not_lt
    intro hnum
    have hle : rank ≤ nearestRank (k * unitsPerOne) 1 := by
      rw [← hread]
      apply nearestRank_le hden
      rw [hlow, Nat.mul_right_comm]
      exact Nat.mul_le_mul_right _ (Nat.le_of_lt hnum)
    rw [← units_le_units_iff, hlow] at hle
    omega
  · apply Nat.lt_of_not_le
    intro hnum
    have hle : nearestRank ((k + 1) * unitsPerOne) 1 ≤ rank := by
      rw [← hread]
      apply le_nearestRank hden
      rw [hhigh, Nat.mul_right_comm]
      exact Nat.mul_le_mul_right _ hnum
    rw [← units_le_units_iff, hhigh] at hle
    omega

end LooseTypes.Binary64
