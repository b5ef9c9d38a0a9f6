import LooseTypes.Proofs.Binary64.Arithmetic
import LooseTypes.Proofs.Binary64.Places

/-!
# The nearest number

`IsNearest q x` says that no number is nearer to `q` than `x`, ties to even, where an infinity counts
as the magnitude that would follow the largest finite one (`place?`). Without the sign this is a
statement on ranks (`IsNearestRank`). There is one nearest rank at most (`IsNearestRank.unique`):
two even ranks are no neighbours. Rounding a quotient gives it (`isNearestRank_min_nearestRank`),
since the distance of neighbours at the nearest rank is no greater than that of neighbours above, and
below it is smaller only where the value is above (`nearestRank_near`). So rounding gives the nearest
number (`isNearest_ofRatio`), which is infinity from half the way to it on
(`IsNearest.eq_infinite_iff`).
-/

namespace LooseTypes

/-- An integer that a value is rounded to is nearer than what is a whole unit away from it, or on its
other side. -/
theorem IsNearestEven.near_other {x y : ℚ} {k : ℤ} (h : IsNearestEven x k)
    (hy : (k : ℚ) + 1 ≤ y ∨ y ≤ k - 1 ∨ y < k ∧ k ≤ x) :
    |x - k| ≤ |x - y| ∧ (|x - k| = |x - y| → Even k) := by
  have hnear := abs_le.1 h.near
  rcases hy with habove | hbelow | ⟨hlt, hle⟩
  · have hy : |x - y| = y - x := by
      rw [abs_of_nonpos (by linarith)]
      ring
    rw [hy]
    exact ⟨by linarith [h.near], fun htie => h.even (le_antisymm h.near (by linarith))⟩
  · have hy : |x - y| = x - y := abs_of_nonneg (by linarith)
    rw [hy]
    exact ⟨by linarith [h.near], fun htie => h.even (le_antisymm h.near (by linarith))⟩
  · rw [abs_of_nonneg (by linarith), abs_of_nonneg (by linarith)]
    exact ⟨by linarith, fun htie => by linarith⟩

namespace Binary64

section Neighbours

variable {s k r : ℕ}

/-- Greater magnitudes are farther by the distance of neighbours at least. -/
theorem le_units_of_lt (hle : k ≤ 2 ^ 53) (hge : s = 0 ∨ 2 ^ 52 ≤ k) (h : s * 2 ^ 52 + k < r) :
    (k + 1) * 2 ^ s ≤ units r := by
  refine Nat.le_trans ?_ (units_le_units_iff.2 h)
  rcases Nat.lt_or_eq_of_le hle with hlt | rfl
  · have hnext : units (s * 2 ^ 52 + (k + 1)) = (k + 1) * 2 ^ s := units_eq hlt (by omega)
    exact Nat.le_of_eq hnext.symm
  · -- the neighbours above are twice as far apart
    have hnext : units ((s + 1) * 2 ^ 52 + (2 ^ 52 + 1)) = (2 ^ 52 + 1) * 2 ^ (s + 1) :=
      units_eq (by decide) (by omega)
    have hrank : (s * 2 ^ 52 + 2 ^ 53).succ = (s + 1) * 2 ^ 52 + (2 ^ 52 + 1) := by omega
    rw [hrank, hnext, Nat.pow_succ 2 s]
    have hpos := Nat.two_pow_pos s
    generalize 2 ^ s = u at hpos ⊢
    omega

/-- So are smaller ones, unless the neighbours below are nearer to one another. -/
theorem units_le_of_lt (hle : k ≤ 2 ^ 53) (hge : s = 0 ∨ 2 ^ 52 ≤ k) (h : r < s * 2 ^ 52 + k) :
    units r + 2 ^ s ≤ k * 2 ^ s ∨ 0 < s ∧ k = 2 ^ 52 := by
  by_cases hedge : 0 < s ∧ k = 2 ^ 52
  · exact .inr hedge
  · refine .inl ?_
    have hprevious : units (s * 2 ^ 52 + (k - 1)) = (k - 1) * 2 ^ s := units_eq (by omega) (by omega)
    have hle' : units r ≤ (k - 1) * 2 ^ s := by
      rw [← hprevious]
      exact units_le_units_iff.2 (by omega)
    have hk : k * 2 ^ s = (k - 1) * 2 ^ s + 2 ^ s := by
      rw [← Nat.succ_mul]
      congr 1
      omega
    omega

end Neighbours

/-- The distance to the nearest magnitude, and to any other one, in neighbours' distances. -/
theorem abs_sub_mul_two_pow (num : ℕ) {den : ℕ} (hden : 0 < den) (s : ℕ) (y : ℚ) :
    |(num / den : ℚ) - y * (2 ^ s : ℕ)| = (2 ^ s : ℕ) * |num / (den * 2 ^ s : ℕ) - y| := by
  have hden' : (den : ℚ) ≠ 0 := by exact_mod_cast Nat.ne_of_gt hden
  have hpos : (0 : ℚ) < (2 ^ s : ℕ) := by exact_mod_cast Nat.two_pow_pos s
  generalize 2 ^ s = u at hpos
  rw [← abs_of_pos hpos, ← abs_mul, abs_of_pos hpos]
  congr 1
  push_cast
  field_simp

/-- In distances of neighbours a rounded magnitude is a whole number `k`, and any other one is a
whole distance away from it, or on its other side. -/
theorem units_div_far {num den s k r : ℕ} (hden : 0 < den) (hle : k ≤ 2 ^ 53)
    (hge : s = 0 ∨ 2 ^ 52 ≤ k) (hunits : units (s * 2 ^ 52 + k) = k * 2 ^ s)
    (hleading : 0 < s → 2 ^ 52 * 2 ^ s ≤ num / den) (hr : r ≠ s * 2 ^ 52 + k) :
    ((k : ℤ) : ℚ) + 1 ≤ units r / (2 ^ s : ℕ) ∨ (units r / (2 ^ s : ℕ) : ℚ) ≤ (k : ℤ) - 1 ∨
      (units r / (2 ^ s : ℕ) : ℚ) < (k : ℤ) ∧ ((k : ℤ) : ℚ) ≤ num / (den * 2 ^ s : ℕ) := by
  have hpos : (0 : ℚ) < (2 ^ s : ℕ) := by exact_mod_cast Nat.two_pow_pos s
  rw [Int.cast_natCast, le_div_iff₀ hpos, div_le_iff₀ hpos, div_lt_iff₀ hpos,
    le_div_iff₀ (by exact_mod_cast Nat.mul_pos hden (Nat.two_pow_pos s))]
  rcases Nat.lt_or_gt_of_ne hr with hlt | hgt
  · rcases units_le_of_lt hle hge hlt with hfar | ⟨hs, hk⟩
    · have hfar' : (units r + (2 ^ s : ℕ) : ℚ) ≤ k * (2 ^ s : ℕ) := by exact_mod_cast hfar
      exact .inr (.inl (by linarith))
    · have hless := units_lt_units hlt
      rw [hunits] at hless
      have hvalue : k * (den * 2 ^ s) ≤ num := by
        calc k * (den * 2 ^ s) = 2 ^ 52 * 2 ^ s * den := by rw [hk]; ring
          _ ≤ num := (Nat.le_div_iff_mul_le hden).1 (hleading hs)
      exact .inr (.inr ⟨by exact_mod_cast hless, by exact_mod_cast hvalue⟩)
  · have hfar := le_units_of_lt hle hge hgt
    have hfar' : ((k + 1) * (2 ^ s : ℕ) : ℚ) ≤ units r := by exact_mod_cast hfar
    exact .inl hfar'

/-- No magnitude is nearer than that of the nearest rank, which is even if another one is as near. -/
theorem nearestRank_near {num den r : ℕ} (hden : 0 < den) (hr : r ≠ nearestRank num den) :
    |(num / den : ℚ) - units (nearestRank num den)| ≤ |(num / den : ℚ) - units r| ∧
      (|(num / den : ℚ) - units (nearestRank num den)| = |(num / den : ℚ) - units r| →
        Even (nearestRank num den)) := by
  have hround := isNearestEven_roundDiv num
    (Nat.mul_pos hden (Nat.two_pow_pos ((num / den).log2 - 52)))
  have hle := @roundDiv_shift_le num den hden
  have hge := @le_roundDiv_shift num den hden
  have hleading : 0 < (num / den).log2 - 52 →
      2 ^ 52 * 2 ^ ((num / den).log2 - 52) ≤ num / den := by
    intro hpos
    have hne : num / den ≠ 0 := ne_zero_of_le_log2 (Nat.succ_pos 52) (by omega)
    rw [← Nat.pow_add, show 52 + ((num / den).log2 - 52) = (num / den).log2 by omega]
    exact Nat.log2_self_le hne
  have hdistance := abs_sub_mul_two_pow num hden ((num / den).log2 - 52)
  have hunits := @units_nearestRank num den hden
  have hrank : nearestRank num den = ((num / den).log2 - 52) * 2 ^ 52 +
      roundDiv .even num (den * 2 ^ ((num / den).log2 - 52)) := nearestRank_eq num den
  rw [hrank] at hr hunits ⊢
  generalize (num / den).log2 - 52 = s at *
  generalize roundDiv .even num (den * 2 ^ s) = k at *
  have hpos : (0 : ℚ) < (2 ^ s : ℕ) := by exact_mod_cast Nat.two_pow_pos s
  obtain ⟨hnear, heven⟩ := hround.near_other (units_div_far hden hle hge hunits hleading hr)
  have hunit : (units r : ℚ) = units r / (2 ^ s : ℕ) * (2 ^ s : ℕ) :=
    (div_mul_cancel₀ _ (ne_of_gt hpos)).symm
  rw [hunit, hunits, Nat.cast_mul, hdistance, hdistance, mul_le_mul_iff_right₀ hpos,
    mul_right_inj' (ne_of_gt hpos)]
  rw [Int.cast_natCast] at hnear heven
  refine ⟨hnear, fun htie => ?_⟩
  have hk := heven htie
  rw [Int.even_coe_nat, Nat.even_iff] at hk
  rw [Nat.even_iff]
  omega

/-! ## Places -/

/-- Where a number is on the line. An infinity counts as the magnitude that would follow the largest
finite one. -/
def place? : Binary64 → Option ℚ
  | .nan => none
  | .infinite negative => some ((if negative then -1 else 1) * (2 ^ 1024 : ℕ))
  | .finite negative rank => value? (.finite negative rank)

/-- Whether the last bit of the significand is zero; that of an infinity counts as zero. -/
def isEven : Binary64 → Bool
  | .finite _ rank => rank.val % 2 == 0
  | _ => true

/-- No number is nearer to `q` than `x`, and if one in another place is as near, `x` is even. -/
def IsNearest (q : ℚ) (x : Binary64) : Prop :=
  ∃ p, x.place? = some p ∧ ∀ (y : Binary64) (r : ℚ), y.place? = some r →
    |q - p| ≤ |q - r| ∧ (|q - p| = |q - r| → r = p ∨ x.isEven = true)

def magnitude (rank : ℕ) : ℚ := units rank / unitsPerOne

theorem magnitude_lt_iff {r s : ℕ} : magnitude r < magnitude s ↔ r < s := by
  have hone : (0 : ℚ) < unitsPerOne := by exact_mod_cast unitsPerOne_pos
  rw [magnitude, magnitude, div_lt_div_iff_of_pos_right hone, Nat.cast_lt, ← not_le,
    units_le_units_iff, not_le]

theorem magnitude_inj {r s : ℕ} : magnitude r = magnitude s ↔ r = s := by
  refine ⟨fun h => ?_, congrArg magnitude⟩
  rcases Nat.lt_trichotomy r s with hlt | heq | hgt
  · exact absurd h (ne_of_lt (magnitude_lt_iff.2 hlt))
  · exact heq
  · exact absurd h (ne_of_gt (magnitude_lt_iff.2 hgt))

theorem magnitude_nonneg (rank : ℕ) : 0 ≤ magnitude rank := by
  unfold magnitude
  positivity

theorem magnitude_zero : magnitude 0 = 0 := by
  rw [magnitude, units_eq_zero_iff.2 rfl, Nat.cast_zero, zero_div]

theorem units_rankLimit : units rankLimit = 2 ^ 1024 * unitsPerOne := by
  have hlimit : rankLimit = 2046 * 2 ^ 52 + 2 ^ 52 := rfl
  have hproduct : 2 ^ 2098 = 2 ^ 52 * 2 ^ 2046 := two_pow_eq_mul rfl
  rw [hlimit, units_eq (by decide) (.inr (Nat.le_refl _)), unitsPerOne_eq, ← hproduct]
  exact two_pow_eq_mul rfl

theorem magnitude_rankLimit : magnitude rankLimit = (2 ^ 1024 : ℕ) := by
  have hone : (unitsPerOne : ℚ) ≠ 0 := by exact_mod_cast Nat.ne_of_gt unitsPerOne_pos
  rw [magnitude, units_rankLimit, Nat.cast_mul, mul_div_cancel_right₀ _ hone]

section OfRank

variable {negative : Bool} {rank : ℕ}

theorem place?_ofRank (h : rank ≤ rankLimit) :
    (ofRank negative rank).place? = some ((if negative then -1 else 1) * magnitude rank) := by
  unfold ofRank
  split
  next hlt =>
    rw [place?, value?, magnitude]
    cases negative with
    | true => rw [if_pos rfl, if_pos rfl, neg_one_mul]
    | false => rw [if_neg Bool.false_ne_true, if_neg Bool.false_ne_true, one_mul]
  next hge =>
    rw [place?, ← magnitude_rankLimit, Nat.le_antisymm h (Nat.le_of_not_lt hge)]

theorem isNegative_ofRank : (ofRank negative rank).isNegative = negative := by
  unfold ofRank
  split
  · rfl
  · rfl

theorem isEven_ofRank (h : rank ≤ rankLimit) : (ofRank negative rank).isEven = true ↔ Even rank := by
  unfold ofRank
  split
  next hlt => rw [isEven, beq_iff_eq, Nat.even_iff]
  next hge =>
    rw [Nat.le_antisymm h (Nat.le_of_not_lt hge), Nat.even_iff]
    exact ⟨fun _ => rfl, fun _ => rfl⟩

theorem ofRank_min (negative : Bool) (rank : ℕ) :
    ofRank negative (min rank rankLimit) = ofRank negative rank := by
  rcases Nat.lt_or_ge rank rankLimit with hlt | hge
  · rw [Nat.min_eq_left (Nat.le_of_lt hlt)]
  · rw [Nat.min_eq_right hge, ofRank, ofRank, dif_neg (Nat.lt_irrefl _), dif_neg (Nat.not_lt.2 hge)]

/-- What has a place has a rank. -/
theorem exists_eq_ofRank {x : Binary64} {p : ℚ} (h : x.place? = some p) :
    ∃ rank ≤ rankLimit, x = ofRank x.isNegative rank ∧
      p = (if x.isNegative then -1 else 1) * magnitude rank := by
  cases x with
  | nan => cases h
  | infinite negative =>
    have hrank : ofRank negative rankLimit = .infinite negative := dif_neg (Nat.lt_irrefl _)
    cases h
    exact ⟨rankLimit, Nat.le_refl _, hrank.symm, by rw [magnitude_rankLimit, isNegative]⟩
  | finite negative rank =>
    have hrank := ofRank_of_lt negative rank
    have hplace := @place?_ofRank negative rank (Nat.le_of_lt rank.isLt)
    rw [hrank, h] at hplace
    exact ⟨rank, Nat.le_of_lt rank.isLt, hrank.symm, Option.some.inj hplace⟩

end OfRank

/-! ## Nearest ranks -/

/-- No magnitude up to infinity's is nearer to `v` than that of the rank, and if another one is as
near, the rank is even. -/
structure IsNearestRank (v : ℚ) (rank : ℕ) : Prop where
  le_rankLimit : rank ≤ rankLimit
  near : ∀ r ≤ rankLimit, |v - magnitude rank| ≤ |v - magnitude r|
  even : ∀ r ≤ rankLimit, |v - magnitude rank| = |v - magnitude r| → r = rank ∨ Even rank

section Ratio

variable {num den r : ℕ}

/-- Among the magnitudes up to infinity's, that of the nearest rank is nearest. -/
theorem magnitude_near (hden : 0 < den) (hr : r ≤ rankLimit)
    (hne : r ≠ min (nearestRank (num * unitsPerOne) den) rankLimit) :
    |(num / den : ℚ) - magnitude (min (nearestRank (num * unitsPerOne) den) rankLimit)| ≤
        |(num / den : ℚ) - magnitude r| ∧
      (|(num / den : ℚ) - magnitude (min (nearestRank (num * unitsPerOne) den) rankLimit)| =
          |(num / den : ℚ) - magnitude r| →
        Even (min (nearestRank (num * unitsPerOne) den) rankLimit)) := by
  have hone : (0 : ℚ) < unitsPerOne := by exact_mod_cast unitsPerOne_pos
  have hscale : ∀ rank, |(num / den : ℚ) - magnitude rank| =
      |((num * unitsPerOne : ℕ) / den : ℚ) - units rank| / unitsPerOne := by
    intro rank
    have hproduct : ((num * unitsPerOne : ℕ) / den : ℚ) - units rank =
        (num / den - magnitude rank) * unitsPerOne := by
      rw [magnitude, sub_mul, div_mul_cancel₀ _ (ne_of_gt hone), Nat.cast_mul, mul_div_right_comm]
    rw [hproduct, abs_mul, abs_of_pos hone, mul_div_cancel_right₀ _ (ne_of_gt hone)]
  rcases Nat.lt_or_ge rankLimit (nearestRank (num * unitsPerOne) den) with hlt | hge
  · -- a value beyond the last place is nearer to it than to those below
    rw [Nat.min_eq_right (Nat.le_of_lt hlt)] at hne ⊢
    have hvalue : units rankLimit * den < num * unitsPerOne := by
      apply Nat.lt_of_not_le
      intro hle
      exact absurd (nearestRank_le hden hle) (Nat.not_le.2 hlt)
    have hlast : magnitude rankLimit ≤ num / den := by
      rw [magnitude, div_le_div_iff₀ hone (by exact_mod_cast hden)]
      exact_mod_cast Nat.le_of_lt hvalue
    have hbelow : magnitude r < magnitude rankLimit :=
      magnitude_lt_iff.2 (Nat.lt_of_le_of_ne hr hne)
    rw [abs_of_nonneg (by linarith), abs_of_nonneg (by linarith)]
    exact ⟨by linarith, fun htie => by linarith⟩
  · rw [Nat.min_eq_left hge] at hne ⊢
    rw [hscale, hscale, div_le_div_iff_of_pos_right hone, div_left_inj' (ne_of_gt hone)]
    exact nearestRank_near hden hne

theorem isNearestRank_min_nearestRank (hden : 0 < den) :
    IsNearestRank (num / den) (min (nearestRank (num * unitsPerOne) den) rankLimit) := by
  refine ⟨Nat.min_le_right _ _, fun r hr => ?_, fun r hr htie => ?_⟩
  · by_cases hne : r = min (nearestRank (num * unitsPerOne) den) rankLimit
    · rw [← hne]
    · exact (magnitude_near hden hr hne).1
  · by_cases hne : r = min (nearestRank (num * unitsPerOne) den) rankLimit
    · exact .inl hne
    · exact .inr ((magnitude_near hden hr hne).2 htie)

end Ratio

/-- What is between two places that are equally far away is nearer. -/
theorem abs_sub_lt_of_between {v a b c : ℚ} (hab : a < b) (hbc : b < c) (h : |v - a| = |v - c|) :
    |v - b| < |v - a| := by
  have hmiddle : v - a = c - v := by
    rcases abs_eq_abs.1 h with hsame | hopposite
    · linarith
    · linarith
  rw [h, ← abs_neg (v - c), neg_sub, abs_of_nonneg (by linarith : 0 ≤ c - v)]
  exact abs_lt.2 ⟨by linarith, by linarith⟩

section IsNearestRank

variable {v : ℚ} {rank r t : ℕ}

/-- Two even ranks are no neighbours, and a magnitude between them would be nearer. -/
theorem IsNearestRank.le (hr : IsNearestRank v r) (ht : IsNearestRank v t) : t ≤ r := by
  apply Nat.le_of_not_lt
  intro hlt
  have htie : |v - magnitude r| = |v - magnitude t| :=
    le_antisymm (hr.near t ht.le_rankLimit) (ht.near r hr.le_rankLimit)
  have hr2 : r % 2 = 0 :=
    Nat.even_iff.1 ((hr.even t ht.le_rankLimit htie).resolve_left (Nat.ne_of_gt hlt))
  have ht2 : t % 2 = 0 :=
    Nat.even_iff.1 ((ht.even r hr.le_rankLimit htie.symm).resolve_left (Nat.ne_of_lt hlt))
  have hnext : r + 1 < t := by omega
  have hbetween := abs_sub_lt_of_between (magnitude_lt_iff.2 (Nat.lt_succ_self r))
    (magnitude_lt_iff.2 hnext) htie
  have hnear := hr.near (r + 1) (Nat.le_trans (Nat.le_of_lt hnext) ht.le_rankLimit)
  exact absurd hnear (not_le.2 hbetween)

theorem IsNearestRank.unique (hr : IsNearestRank v r) (ht : IsNearestRank v t) : r = t :=
  Nat.le_antisymm (ht.le hr) (hr.le ht)

theorem isNearestRank_zero : IsNearestRank 0 0 := by
  refine ⟨Nat.zero_le _, fun r _ => ?_, fun _ _ _ => .inr (by decide)⟩
  rw [magnitude_zero, sub_zero, abs_zero]
  exact abs_nonneg _

/-- Half the way from the largest finite magnitude to the next place. -/
theorem magnitude_largest :
    magnitude (rankLimit - 1) + magnitude rankLimit = 2 * (2 ^ 1024 - 2 ^ 970 : ℕ) := by
  have hone : (unitsPerOne : ℚ) ≠ 0 := by exact_mod_cast Nat.ne_of_gt unitsPerOne_pos
  have hsum : (2 ^ 53 - 1) * 2 ^ 971 + 2 ^ 1024 = 2 * (2 ^ 1024 - 2 ^ 970) := by
    have hlast : 2 ^ 1024 = 2 ^ 54 * 2 ^ 970 := two_pow_eq_mul rfl
    have hgap : 2 ^ 971 = 2 ^ 1 * 2 ^ 970 := two_pow_eq_mul rfl
    rw [hlast, hgap]
    generalize 2 ^ 970 = gap
    omega
  rw [magnitude_rankLimit, magnitude, units_largest, maxFinite, Nat.cast_mul, mul_div_cancel_right₀ _ hone,
    ← Nat.cast_add, hsum, Nat.cast_mul, Nat.cast_ofNat]

/-- A value beyond half the way from the largest finite magnitude to the next place is nearest to
infinity's; half the way is a tie, and the largest finite magnitude is not the even one. -/
theorem IsNearestRank.eq_rankLimit_iff (h : IsNearestRank v rank) :
    rank = rankLimit ↔ ((2 ^ 1024 - 2 ^ 970 : ℕ) : ℚ) ≤ v := by
  have hhalf := magnitude_largest
  have hlast : magnitude (rankLimit - 1) < magnitude rankLimit := magnitude_lt_iff.2 (by decide)
  constructor
  · rintro rfl
    have hnear := h.near (rankLimit - 1) (Nat.sub_le _ _)
    by_contra hlt
    rw [not_le] at hlt
    rw [abs_of_nonpos (by linarith : v - magnitude rankLimit ≤ 0)] at hnear
    rcases le_total v (magnitude (rankLimit - 1)) with hlow | hhigh
    · rw [abs_of_nonpos (by linarith)] at hnear
      linarith
    · rw [abs_of_nonneg (by linarith)] at hnear
      linarith
  · intro hle
    by_contra hne
    have hrank : rank ≤ rankLimit - 1 := by
      have := h.le_rankLimit
      omega
    have hlargest : magnitude rank ≤ magnitude (rankLimit - 1) :=
      not_lt.1 fun hlt => Nat.not_lt.2 hrank (magnitude_lt_iff.1 hlt)
    have hnear := h.near rankLimit (Nat.le_refl _)
    have htie := h.even rankLimit (Nat.le_refl _)
    rw [abs_of_nonneg (by linarith : 0 ≤ v - magnitude rank)] at hnear htie
    rcases le_total v (magnitude rankLimit) with hlow | hhigh
    · rw [abs_of_nonpos (by linarith : v - magnitude rankLimit ≤ 0)] at hnear htie
      have hsame : rank = rankLimit - 1 := magnitude_inj.1 (by linarith)
      rcases htie (by linarith) with hlimit | heven
      · exact hne hlimit.symm
      · rw [hsame] at heven
        exact absurd heven (by decide)
    · rw [abs_of_nonneg (by linarith : 0 ≤ v - magnitude rankLimit)] at hnear
      linarith

end IsNearestRank

/-! ## Nearest numbers -/

/-- What is on the other side of zero is as far away as both magnitudes together. -/
theorem abs_signed_sub (s t : Bool) {a b : ℚ} (ha : 0 ≤ a) (hb : 0 ≤ b) :
    |(if s then -1 else 1) * a - (if t then -1 else 1) * b| =
      if s = t then |a - b| else a + b := by
  cases s <;> cases t <;> simp only [if_true, if_false, Bool.false_eq_true, Bool.true_eq_false]
  · rw [one_mul, one_mul]
  · rw [abs_of_nonneg (by linarith)]
    ring
  · rw [abs_of_nonpos (by linarith)]
    ring
  · rw [← abs_neg]
    congr 1
    ring

theorem abs_sub_signed (negative : Bool) (q a : ℚ) :
    |q - (if negative then -1 else 1) * a| = |(if negative then -1 else 1) * q - a| := by
  cases negative with
  | false => rw [if_neg Bool.false_ne_true, one_mul, one_mul]
  | true =>
    rw [if_pos rfl, ← abs_neg]
    congr 1
    ring

/-- The number at a nearest rank is nearest, on the side of the value. -/
theorem IsNearestRank.isNearest_ofRank {v : ℚ} {rank : ℕ} (h : IsNearestRank v rank) (hv : 0 ≤ v)
    (negative : Bool) : IsNearest ((if negative then -1 else 1) * v) (ofRank negative rank) := by
  refine ⟨_, place?_ofRank h.le_rankLimit, fun y p hy => ?_⟩
  obtain ⟨r, hr, -, rfl⟩ := exists_eq_ofRank hy
  have hpositive := magnitude_nonneg r
  have hnear := h.near r hr
  have heven := h.even r hr
  rw [isEven_ofRank h.le_rankLimit, abs_signed_sub negative negative hv (magnitude_nonneg rank),
    abs_signed_sub negative y.isNegative hv hpositive, if_pos rfl]
  by_cases hsign : negative = y.isNegative
  · rw [if_pos hsign, ← hsign]
    exact ⟨hnear, fun htie => (heven htie).imp_left fun hrank => by rw [hrank]⟩
  · -- a number on the other side of zero is no nearer than that of the same magnitude on this one
    rw [if_neg hsign]
    have hsum : |v - magnitude r| ≤ v + magnitude r := abs_le.2 ⟨by linarith, by linarith⟩
    refine ⟨le_trans hnear hsum, fun htie => ?_⟩
    rcases heven (le_antisymm hnear (by rw [htie]; exact hsum)) with hrank | heven'
    · -- the same distance on both sides, so both are zero
      left
      subst hrank
      have hleast := h.near 0 (Nat.zero_le _)
      rw [magnitude_zero, sub_zero, abs_of_nonneg hv] at hleast
      have hzero : magnitude r = 0 := by linarith
      rw [hzero, mul_zero, mul_zero]
    · exact .inr heven'

/-- Rounding gives the nearest number. -/
theorem isNearest_ofRatio {num den : ℕ} (negative : Bool) (hden : 0 < den) :
    IsNearest ((if negative then -1 else 1) * (num / den)) (ofRatio negative num den) := by
  rw [ofRatio, ← ofRank_min]
  exact (isNearestRank_min_nearestRank hden).isNearest_ofRank (by positivity) negative

theorem isNearest_zero (negative : Bool) : IsNearest 0 (zero negative) := by
  have hnearest := isNearestRank_zero.isNearest_ofRank (le_refl 0) negative
  rwa [mul_zero] at hnearest

section IsNearest

variable {q : ℚ} {x y : Binary64}

/-- The nearest number has the nearest rank, on the side of its sign. -/
theorem IsNearest.exists_rank (h : IsNearest q x) :
    ∃ rank, x = ofRank x.isNegative rank ∧
      IsNearestRank ((if x.isNegative then -1 else 1) * q) rank := by
  obtain ⟨p, hp, hnear⟩ := h
  obtain ⟨rank, hrank, hx, rfl⟩ := exists_eq_ofRank hp
  have hother := fun r hr => hnear _ _ (@place?_ofRank x.isNegative r hr)
  simp only [abs_sub_signed] at hother
  refine ⟨rank, hx, hrank, fun r hr => (hother r hr).1, fun r hr htie => ?_⟩
  rcases (hother r hr).2 htie with hsame | heven
  · left
    have hsign : (if x.isNegative then -1 else 1 : ℚ) ≠ 0 := by
      split <;> norm_num
    exact magnitude_inj.1 (mul_left_cancel₀ hsign hsame)
  · right
    rw [hx] at heven
    exact (isEven_ofRank hrank).1 heven

theorem IsNearest.unique (hx : IsNearest q x) (hy : IsNearest q y)
    (hsign : x.isNegative = y.isNegative) : x = y := by
  obtain ⟨r, hxr, hnearx⟩ := hx.exists_rank
  obtain ⟨t, hyt, hneary⟩ := hy.exists_rank
  rw [← hsign] at hneary hyt
  rw [hxr, hyt, hnearx.unique hneary]

/-- On its side of zero a value beyond half the way from the largest finite number to the next place
is nearest to infinity. -/
theorem IsNearest.eq_infinite_iff (h : IsNearest q x)
    (hside : 0 ≤ (if x.isNegative then -1 else 1) * q) :
    x = .infinite x.isNegative ↔ ((2 ^ 1024 - 2 ^ 970 : ℕ) : ℚ) ≤ |q| := by
  have habs : |q| = (if x.isNegative then -1 else 1) * q := by
    rw [← abs_of_nonneg hside]
    split
    · rw [neg_one_mul, abs_neg]
    · rw [one_mul]
  obtain ⟨rank, hx, hnear⟩ := h.exists_rank
  rw [habs, ← hnear.eq_rankLimit_iff]
  constructor
  · intro hinfinite
    apply Nat.le_antisymm hnear.le_rankLimit
    apply Nat.le_of_not_lt
    intro hlt
    rw [hinfinite, ofRank, dif_pos hlt] at hx
    cases hx
  · intro hlimit
    rw [hx, isNegative_ofRank, hlimit]
    exact dif_neg (Nat.lt_irrefl _)

end IsNearest

end Binary64

end LooseTypes
