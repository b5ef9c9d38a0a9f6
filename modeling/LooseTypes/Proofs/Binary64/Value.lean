import LooseTypes.Proofs.Binary64.Nearest
import Mathlib.Algebra.Order.Field.Rat

/-!
# The exact value

`value?` is the value of a finite number as a fraction. Magnitudes differ at different ranks
(`units_inj`), so but for the sign of zero a number is determined by its value. `IsInteger` says
that a number is exactly an integer, where zero is the positive one (`isInteger_iff`); at most one
number is (`IsInteger.unique`). Numeric equality is that of the values (`numEq_iff`).
-/

namespace LooseTypes.Binary64

def value? : Binary64 → Option ℚ
  | .finite negative rank =>
    some (if negative then -(units rank / unitsPerOne) else units rank / unitsPerOne)
  | _ => none

/-- The number is exactly the integer `n`, and not negative zero. -/
def IsInteger (x : Binary64) (n : Int) : Prop := x.value? = some (n : ℚ) ∧ x ≠ zero true

theorem units_inj {r s : Nat} : units r = units s ↔ r = s :=
  ⟨fun h => by rw [← nearestRank_units r, h, nearestRank_units], congrArg units⟩

theorem units_eq_zero_iff {rank : Nat} : units rank = 0 ↔ rank = 0 :=
  units_inj (s := 0)

theorem abs_mul_unitsPerOne {negative : Bool} {rank : Fin rankLimit} {q : ℚ}
    (h : (finite negative rank).value? = some q) : |q| * unitsPerOne = units rank := by
  have hone := unitsPerOne_pos
  cases h
  generalize unitsPerOne = one at hone ⊢
  have hone' : (0 : ℚ) < one := Nat.cast_pos.2 hone
  have hnonneg : (0 : ℚ) ≤ units rank / one := div_nonneg (Nat.cast_nonneg _) (le_of_lt hone')
  cases negative with
  | true => rw [if_pos rfl, abs_neg, abs_of_nonneg hnonneg, div_mul_cancel₀ _ (ne_of_gt hone')]
  | false =>
    rw [if_neg Bool.false_ne_true, abs_of_nonneg hnonneg, div_mul_cancel₀ _ (ne_of_gt hone')]

theorem value?_finite_eq_iff {negative : Bool} {rank : Fin rankLimit} {n : Int} :
    (finite negative rank).value? = some (n : ℚ) ↔
      (if negative then -(units rank : Int) else units rank) = n * unitsPerOne := by
  have hone : (unitsPerOne : ℚ) ≠ 0 := by exact_mod_cast Nat.ne_of_gt unitsPerOne_pos
  cases negative with
  | true =>
    simp only [value?, if_true, Option.some.injEq]
    rw [← neg_div, div_eq_iff hone]
    exact_mod_cast Iff.rfl
  | false =>
    simp only [value?, Bool.false_eq_true, if_false, Option.some.injEq]
    rw [div_eq_iff hone]
    exact_mod_cast Iff.rfl

/-- The value of a magnitude that is another fraction of units. -/
theorem value?_finite_of_mul_eq {negative : Bool} {rank : Fin rankLimit} {n d : Nat} (hd : d ≠ 0)
    (h : units rank * d = n * unitsPerOne) :
    (finite negative rank).value? = some (if negative then -(n / d : ℚ) else n / d) := by
  have hone := unitsPerOne_pos
  unfold value?
  generalize unitsPerOne = one at h hone ⊢
  have hquotient : (units rank : ℚ) / one = n / d :=
    (div_eq_div_iff (Nat.cast_ne_zero.2 (by omega)) (Nat.cast_ne_zero.2 hd)).2 (by exact_mod_cast h)
  simp only [hquotient]

theorem value?_zero (negative : Bool) : (zero negative).value? = some 0 := by
  have hvalue := @value?_finite_of_mul_eq negative ⟨0, by decide⟩ 0 1 (by decide)
    (by rw [units_eq_zero_iff.2 rfl, Nat.zero_mul, Nat.zero_mul])
  simp only [Nat.cast_zero, zero_div, neg_zero, ite_self] at hvalue
  exact hvalue

theorem finite_ne_zero_iff {negative : Bool} {rank : Fin rankLimit} :
    finite negative rank ≠ zero true ↔ units rank ≠ 0 ∨ negative = false := by
  rw [zero, Ne, finite.injEq, Fin.ext_iff, ← units_eq_zero_iff, Ne, ← Bool.not_eq_true]
  tauto

/-- An integer by its sign and its magnitude. -/
theorem signed_natAbs (n : Int) :
    (if decide (n < 0) then -(n.natAbs : Int) else n.natAbs) = n := by
  by_cases h : n < 0
  · rw [if_pos (decide_eq_true h)]
    omega
  · rw [if_neg (by simpa using h)]
    omega

/-- A magnitude with a sign, which zero has not, is one integer only. -/
theorem signed_eq_iff {negative : Bool} {u : Nat} {n : Int} (h : u ≠ 0 ∨ negative = false) :
    (if negative then -(u : Int) else u) = n ↔ negative = decide (n < 0) ∧ u = n.natAbs := by
  constructor
  · rintro rfl
    cases negative with
    | false =>
      rw [if_neg Bool.false_ne_true, eq_comm, decide_eq_false_iff_not]
      omega
    | true =>
      have hu : u ≠ 0 := h.resolve_right (by decide)
      rw [if_pos rfl, eq_comm, decide_eq_true_iff]
      omega
  · rintro ⟨rfl, rfl⟩
    exact signed_natAbs n

/-- A number that is an integer, by its sign and its magnitude. -/
theorem isInteger_iff {x : Binary64} {n : Int} :
    x.IsInteger n ↔ ∃ rank : Fin rankLimit,
      x = .finite (decide (n < 0)) rank ∧ units rank = n.natAbs * unitsPerOne := by
  have hone : (0 : Int) < unitsPerOne := by exact_mod_cast unitsPerOne_pos
  have hsign : decide (n * unitsPerOne < 0) = decide (n < 0) :=
    decide_eq_decide.2 ⟨fun h => neg_of_mul_neg_left h (Int.le_of_lt hone),
      fun h => Int.mul_neg_of_neg_of_pos h hone⟩
  have hmagnitude : (n * unitsPerOne).natAbs = n.natAbs * unitsPerOne := by
    rw [Int.natAbs_mul, Int.natAbs_natCast]
  constructor
  · rintro ⟨hvalue, hzero⟩
    cases x with
    | nan => cases hvalue
    | infinite negative => cases hvalue
    | finite negative rank =>
      rw [value?_finite_eq_iff, signed_eq_iff (finite_ne_zero_iff.1 hzero), hsign, hmagnitude]
        at hvalue
      exact ⟨rank, by rw [hvalue.1], hvalue.2⟩
  · rintro ⟨rank, rfl, hunits⟩
    have hzero : units rank ≠ 0 ∨ decide (n < 0) = false := by
      rw [hunits, Ne, Nat.mul_eq_zero, decide_eq_false_iff_not]
      have := unitsPerOne_pos
      omega
    refine ⟨?_, finite_ne_zero_iff.2 hzero⟩
    rw [value?_finite_eq_iff, signed_eq_iff hzero, hsign, hmagnitude]
    exact ⟨rfl, hunits⟩

theorem IsInteger.unique {x y : Binary64} {n : Int} (hx : x.IsInteger n) (hy : y.IsInteger n) :
    x = y := by
  obtain ⟨r, rfl, hr⟩ := isInteger_iff.1 hx
  obtain ⟨s, rfl, hs⟩ := isInteger_iff.1 hy
  rw [Fin.ext (units_inj.1 (hr.trans hs.symm))]

/-! ## Numeric equality -/

theorem value?_nan : nan.value? = none := rfl

theorem value?_infinite (negative : Bool) : (infinite negative).value? = none := rfl

theorem value?_not (negative : Bool) (rank : Fin rankLimit) :
    (finite (!negative) rank).value? = (finite negative rank).value?.map (-·) := by
  cases negative with
  | true => exact congrArg some (neg_neg _).symm
  | false => rfl

theorem value?_eq_zero_iff {negative : Bool} {rank : Fin rankLimit} :
    (finite negative rank).value? = some 0 ↔ rank.val = 0 := by
  constructor
  · intro h
    have hunits := abs_mul_unitsPerOne h
    rw [abs_zero, zero_mul, eq_comm, Nat.cast_eq_zero] at hunits
    exact units_eq_zero_iff.1 hunits
  · intro h
    obtain rfl : rank = ⟨0, by decide⟩ := Fin.ext h
    exact value?_zero negative

/-- Finite numbers of one value are the same, but for the sign of zero. -/
theorem value?_finite_inj {negative negative' : Bool} {rank rank' : Fin rankLimit} :
    (finite negative rank).value? = (finite negative' rank').value? ↔
      rank = rank' ∧ (negative = negative' ∨ rank.val = 0) := by
  constructor
  · intro h
    obtain ⟨q, hq⟩ : ∃ q, (finite negative rank).value? = some q := ⟨_, rfl⟩
    have hunits := abs_mul_unitsPerOne hq
    rw [abs_mul_unitsPerOne (h ▸ hq), Nat.cast_inj, units_inj] at hunits
    obtain rfl := Fin.ext hunits
    refine ⟨rfl, or_iff_not_imp_left.2 fun hsign => ?_⟩
    -- a value that is its own negative is zero
    obtain rfl : negative' = !negative := Bool.eq_not_of_ne (Ne.symm hsign)
    rw [value?_not, hq, Option.map_some, Option.some_inj, self_eq_neg] at h
    rw [h] at hq
    exact value?_eq_zero_iff.1 hq
  · rintro ⟨rfl, rfl | hzero⟩
    · rfl
    · rw [value?_eq_zero_iff.2 hzero, value?_eq_zero_iff.2 hzero]

/-- Numbers are equal if they are the same infinity or have one value. -/
theorem numEq_iff {x y : Binary64} : x.numEq y = true ↔
    (∃ negative, x = infinite negative ∧ y = infinite negative) ∨
      ∃ q, x.value? = some q ∧ y.value? = some q := by
  cases x with
  | nan => simp only [numEq, value?_nan, reduceCtorEq, false_and, exists_false, or_self]
  | infinite a =>
    cases y with
    | nan | finite => simp only [numEq, value?_infinite, reduceCtorEq, false_and, and_false,
        exists_false, or_self]
    | infinite b =>
      simp only [numEq, value?_infinite, beq_iff_eq, infinite.injEq, reduceCtorEq, false_and,
        exists_false, or_false, exists_eq_left']
      exact eq_comm
  | finite a r =>
    cases y with
    | nan | infinite => simp only [numEq, value?_nan, value?_infinite, reduceCtorEq, false_and,
        and_false, exists_false, or_self]
    | finite b s =>
      simp only [numEq, reduceCtorEq, false_and, exists_false, false_or, Bool.and_eq_true,
        Bool.or_eq_true, beq_iff_eq, ← value?_finite_inj]
      constructor
      · exact fun h => ⟨_, rfl, h.symm⟩
      · rintro ⟨q, hx, hy⟩
        exact hx.trans hy.symm

theorem numEq_trans {x y z : Binary64} (hxy : x.numEq y = true) (hyz : y.numEq z = true) :
    x.numEq z = true := by
  rw [numEq_iff] at *
  rcases hxy with ⟨a, rfl, rfl⟩ | ⟨p, hx, hy⟩
  · rcases hyz with ⟨b, hb, rfl⟩ | ⟨q, hy, -⟩
    · exact .inl ⟨b, hb, rfl⟩
    · cases hy
  · rcases hyz with ⟨b, rfl, rfl⟩ | ⟨q, hy', hz⟩
    · cases hy
    · exact .inr ⟨p, hx, by rw [hz, ← hy', hy]⟩

end LooseTypes.Binary64
