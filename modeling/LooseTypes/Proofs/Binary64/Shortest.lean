import LooseTypes.Binary64.Layout
import LooseTypes.Proofs.Binary64.Nearest

/-!
# Shortest decimals read back

The decimal number that `shortest` gives for a rank is rounded to this rank again, with either sign
(`ofDecimal_shortest`). A candidate of few digits is taken only if it reads back, and the exact
expansion, which stands behind the candidates, is no other number than the magnitude itself.
-/

namespace LooseTypes.Binary64

/-! ## Candidates -/

theorem withDigits_eq (count c : Nat) (exponent : Int) :
    withDigits count c exponent =
      if c = 10 ^ count then ⟨1, exponent + count⟩ else ⟨c, exponent⟩ := rfl

/-- A candidate is the number of its coefficient and exponent, also after a carry. -/
theorem num_mul_den_withDigits (count c : Nat) (exponent : Int) :
    (withDigits count c exponent).num * (⟨c, exponent⟩ : Decimal).den =
      (⟨c, exponent⟩ : Decimal).num * (withDigits count c exponent).den := by
  rw [withDigits_eq]
  split
  next h =>
    simp only [Decimal.num_eq, Decimal.den_eq, h, Nat.one_mul, ← Nat.pow_add]
    congr 1
    omega
  next => rfl

theorem neighbour?_eq (tie : Tie) (rank count : Nat) :
    neighbour? tie rank count =
      let exponent := leadingExponent rank + 1 - count
      let n := units rank * 10 ^ (-exponent).toNat
      let d := unitsPerOne * 10 ^ exponent.toNat
      let near := roundDiv tie n d
      let far := if near = n / d then n / d + 1 else n / d
      ([near, far].map (withDigits count · exponent)).find? (readsBack rank) := rfl

/-! ## Reading back -/

theorem nearestRank_of_readsBack {rank : Fin rankLimit} {d : Decimal} (h : readsBack rank d = true) :
    nearestRank (d.num * unitsPerOne) d.den = rank := by
  rw [readsBack, beq_iff_eq, ofDecimal_eq_ofRatio, ofRatio] at h
  exact ofRank_inj rank.isLt h

theorem ofDecimal_of_readsBack {rank : Fin rankLimit} {d : Decimal} (negative : Bool)
    (h : readsBack rank d = true) : ofDecimal negative d = .finite negative rank := by
  rw [ofDecimal_eq_ofRatio, ofRatio, nearestRank_of_readsBack h, ofRank_of_lt]

theorem readsBack_exactDecimal (rank : Nat) : readsBack rank (exactDecimal rank) = true := by
  have hpow : ∀ n, 5 ^ n * 2 ^ n = 10 ^ n := fun n => (Nat.mul_pow 5 2 n).symm
  have hvalue : (exactDecimal rank).num * unitsPerOne = units rank * (exactDecimal rank).den := by
    simp only [Decimal.num_eq, Decimal.den_eq, exactDecimal, unitsPerOne_eq, Int.neg_neg,
      show (-1074 : Int).toNat = 0 from rfl, show (1074 : Int).toNat = 1074 from rfl,
      Nat.pow_eq, Nat.pow_zero, Nat.mul_one, Nat.mul_assoc, hpow]
  rw [readsBack, beq_iff_eq, ofDecimal_eq_ofRatio,
    ofRatio_congr (Decimal.den_pos _) unitsPerOne_pos hvalue, ofRatio_units]

theorem readsBack_shortest (tie : Tie) {rank : Nat} (h : rank ≠ 0) :
    readsBack rank (shortest tie rank) = true := by
  rw [shortest, if_neg h]
  cases hcandidate : (List.range' 1 17).findSome? (neighbour? tie rank) with
  | none => exact readsBack_exactDecimal rank
  | some d =>
    obtain ⟨count, -, hcount⟩ := List.exists_of_findSome?_eq_some hcandidate
    exact readsBack_of_neighbour? hcount

theorem ofDecimal_shortest (tie : Tie) (negative : Bool) (rank : Fin rankLimit) :
    ofDecimal negative (shortest tie rank) = .finite negative rank := by
  by_cases h : rank.val = 0
  · rw [shortest, if_pos h, ofDecimal, if_pos rfl, zero]
    exact congrArg _ (Fin.ext h.symm)
  · exact ofDecimal_of_readsBack negative (readsBack_shortest tie h)

theorem coefficient_shortest_pos (tie : Tie) {rank : Fin rankLimit} (h : rank.val ≠ 0) :
    0 < (shortest tie rank).coefficient := by
  refine Nat.pos_of_ne_zero fun hzero => h ?_
  have hread := ofDecimal_shortest tie false rank
  rw [ofDecimal, if_pos hzero, zero, Binary64.finite.injEq] at hread
  rw [← hread.2]

end LooseTypes.Binary64
