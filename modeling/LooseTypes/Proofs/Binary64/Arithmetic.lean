import LooseTypes.Proofs.Binary64.Order
import LooseTypes.Proofs.Numeral

/-!
# Wrapping around in binary64 arithmetic

An operation on finite numbers gives the number nearest to its exact result (`Operation.result?`).
`wrapped` brings a finite number into the signed 64-bit range by such operations: the whole part, the
remainder by `2 ^ 64`, and up to two shifts by `2 ^ 64`. None of them rounds (`givesExactly_wrapped`):
outside the range a number is a multiple of `2048`, and multiples of it below `2 ^ 64` are magnitudes.
-/

namespace LooseTypes.Binary64

/-! ## Operations -/

def isNegative : Binary64 → Bool
  | .finite negative _ => negative
  | .infinite negative => negative
  | .nan => false

/-- The number nearest to a fraction; `negativeZero` is the sign of a zero. -/
def ofRat (negativeZero : Bool) (q : ℚ) : Binary64 :=
  ofRatio (if q = 0 then negativeZero else decide (q < 0)) q.num.natAbs q.den

inductive Operation where
  | trunc (x : Binary64)
  | rem (x y : Binary64)
  | add (x y : Binary64)
  | sub (x y : Binary64)

namespace Operation

/-- The exact result, where there is one. The remainder has the sign of the dividend. -/
def value? : Operation → Option ℚ
  | .trunc x => do
    let p ← x.value?
    return towardZero p
  | .rem x y => do
    let p ← x.value?
    let q ← y.value?
    if q = 0 then none else return p - towardZero (p / q) * q
  | .add x y => do
    let p ← x.value?
    let q ← y.value?
    return p + q
  | .sub x y => do
    let p ← x.value?
    let q ← y.value?
    return p - q

def negativeZero : Operation → Bool
  | .trunc x | .rem x _ => x.isNegative
  | .add x y => x.isNegative && y.isNegative
  | .sub x y => x.isNegative && !y.isNegative

def result? (o : Operation) : Option Binary64 := o.value?.map (ofRat o.negativeZero)

/-- Nothing is rounded. -/
def IsExact (o : Operation) : Prop :=
  ∃ y q, o.result? = some y ∧ o.value? = some q ∧ y.value? = some q

def perform (o : Operation) : StateT (List Operation) Option Binary64 := do
  modify (· ++ [o])
  o.result?

section Value

variable {x y : Binary64} {p : ℚ} {m n : Int} {k : Nat}

theorem value?_trunc (hx : x.value? = some p) :
    (trunc x).value? = some (towardZero p : ℚ) := by
  simp [value?, hx]

theorem value?_rem (hx : x.value? = some (m : ℚ)) (hy : y.value? = some (k : ℚ)) (hk : k ≠ 0) :
    (rem x y).value? = some ((m.tmod k : ℤ) : ℚ) := by
  have hk' : (k : ℚ) ≠ 0 := by exact_mod_cast hk
  simp only [value?, hx, hy, Option.bind_eq_bind, Option.bind_some, if_neg hk', Option.pure_def,
    towardZero_intCast_div, Int.tmod_def]
  push_cast
  rw [mul_comm]

theorem value?_add (hx : x.value? = some (m : ℚ)) (hy : y.value? = some (n : ℚ)) :
    (add x y).value? = some ((m + n : ℤ) : ℚ) := by
  simp [value?, hx, hy]

theorem value?_sub (hx : x.value? = some (m : ℚ)) (hy : y.value? = some (n : ℚ)) :
    (sub x y).value? = some ((m - n : ℤ) : ℚ) := by
  simp [value?, hx, hy]

end Value

end Operation

def isBelow (x : Binary64) (bound : ℚ) : Bool := x.value?.any (· < bound)

/-- A remainder by `2 ^ 64`, shifted into the signed 64-bit range. -/
def shifted (rest : Binary64) : StateT (List Operation) Option Binary64 := do
  let unsigned ← (if rest.isBelow 0 then (Operation.add rest (ofInt 18446744073709551616)).perform
    else pure rest)
  if unsigned.isBelow 9223372036854775808 then pure unsigned
  else (Operation.sub unsigned (ofInt 18446744073709551616)).perform

/-- The whole part of a finite number, wrapped around into the signed 64-bit range. -/
def wrapped (x : Binary64) : StateT (List Operation) Option Binary64 := do
  let whole ← (Operation.trunc x).perform
  if !whole.isBelow (-9223372036854775808) && whole.isBelow 9223372036854775808 then
    pure whole
  else
    let rest ← (Operation.rem whole (ofInt 18446744073709551616)).perform
    shifted rest

/-- The whole part of a number, clamped into the signed 64-bit range. -/
def castInt64 (x : Binary64) : Int64 := Int64.ofIntClamp x.truncate

/-! ## Whole magnitudes -/

section Magnitude

variable {n : Nat}

theorem isMagnitude_wholePart (rank : Fin rankLimit) : IsMagnitude (units rank / unitsPerOne) := by
  have hle : nearestRank (units rank / unitsPerOne * unitsPerOne) 1 ≤ rank := by
    apply nearestRank_le Nat.one_pos
    rw [Nat.mul_one]
    exact Nat.div_mul_le_self _ _
  exact ⟨⟨_, Nat.lt_of_le_of_lt hle rank.isLt⟩, units_nearestRank_wholePart rank⟩

/-- Beyond the signed 64-bit range only multiples of `2048` are magnitudes. -/
theorem IsMagnitude.dvd (h : IsMagnitude n) (hn : 2 ^ 63 ≤ n) : 2048 ∣ n := by
  obtain ⟨rank, hrank⟩ := h
  obtain ⟨k, hk⟩ : ∃ k, unitsPerOne = 2 ^ k := ⟨1074, unitsPerOne_eq⟩
  have hdvd : 2 ^ (10 + k + 1) ∣ units rank := by
    apply two_pow_dvd_units
    rw [hrank, hk, Nat.pow_add, ← Nat.mul_assoc]
    exact Nat.mul_le_mul_right _ hn
  have hpow : 2 ^ (10 + k + 1) = 2048 * 2 ^ k := by
    rw [Nat.add_right_comm, Nat.pow_add]
  rw [hrank, hk, hpow] at hdvd
  exact Nat.dvd_of_mul_dvd_mul_right (Nat.two_pow_pos k) hdvd

theorem isMagnitude_of_2048_dvd (h : 2048 ∣ n) (hn : n < 2 ^ 64) : IsMagnitude n := by
  refine isMagnitude_of_dvd (Nat.le_trans (Nat.le_of_lt hn) (by decide +kernel)) ?_
  have hlog : n.log2 - 52 ≤ 11 := by
    rcases Nat.eq_zero_or_pos n with rfl | hpos
    · decide
    · have := (Nat.log2_lt (Nat.ne_of_gt hpos)).2 hn
      omega
  exact Nat.dvd_trans (Nat.pow_dvd_pow 2 hlog) h

theorem isMagnitude_two_pow_64 : IsMagnitude (18446744073709551616 : Int).natAbs :=
  ⟨⟨1087 * 2 ^ 52, by decide⟩, by decide +kernel⟩

end Magnitude

theorem value?_ofRat_intCast (negativeZero : Bool) {n : Int} (h : IsMagnitude n.natAbs) :
    (ofRat negativeZero n).value? = some (n : ℚ) := by
  unfold ofRat
  rw [Rat.num_intCast, Rat.den_intCast]
  by_cases hn : n = 0
  · have hzero : ofRatio negativeZero 0 1 = zero negativeZero :=
      ofRatio_eq_zero negativeZero (by rw [Nat.zero_mul]; exact Nat.one_pos)
    subst hn
    rw [if_pos Int.cast_zero, Int.natAbs_zero, hzero, value?_zero, Int.cast_zero]
  · have hsign : decide ((n : ℚ) < 0) = decide (n < 0) :=
      decide_eq_decide.2 (by exact_mod_cast Iff.rfl)
    rw [if_neg (by exact_mod_cast hn), hsign]
    exact h.isInteger_ofInt.1

/-! ## Exact steps -/

/-- The steps give the integer, and none of their operations rounds. -/
def GivesExactly (steps : StateT (List Operation) Option Binary64) (n : Int) : Prop :=
  ∀ noted, ∃ y operations, steps.run noted = some (y, noted ++ operations) ∧
    (∀ o ∈ operations, o.IsExact) ∧ y.value? = some (n : ℚ)

section GivesExactly

variable {m n : Int}

theorem givesExactly_pure {y : Binary64} (hy : y.value? = some (n : ℚ)) :
    GivesExactly (pure y) n := by
  intro noted
  refine ⟨y, [], ?_, by simp, hy⟩
  rw [List.append_nil]
  rfl

theorem GivesExactly.bind {steps : StateT (List Operation) Option Binary64}
    {next : Binary64 → StateT (List Operation) Option Binary64} (h : GivesExactly steps m)
    (hnext : ∀ y, y.value? = some (m : ℚ) → GivesExactly (next y) n) :
    GivesExactly (steps >>= next) n := by
  intro noted
  obtain ⟨y, first, hrun, hfirst, hy⟩ := h noted
  obtain ⟨z, second, hrun', hsecond, hz⟩ := hnext y hy (noted ++ first)
  refine ⟨z, first ++ second, ?_, List.forall_mem_append.2 ⟨hfirst, hsecond⟩, hz⟩
  rw [StateT.run_bind, hrun, ← List.append_assoc]
  exact hrun'

theorem givesExactly_perform {o : Operation} (ho : o.value? = some (n : ℚ))
    (hn : IsMagnitude n.natAbs) : GivesExactly o.perform n := by
  have hresult : o.result? = some (ofRat o.negativeZero n) := by rw [Operation.result?, ho]; rfl
  have hvalue := value?_ofRat_intCast o.negativeZero hn
  intro noted
  refine ⟨_, [o], ?_, List.forall_mem_singleton.2 ⟨_, _, hresult, ho, hvalue⟩, hvalue⟩
  simp [Operation.perform, hresult]

end GivesExactly

/-! ## Wrapping around -/

theorem isBelow_eq {x : Binary64} {n bound : Int} (h : x.value? = some (n : ℚ)) :
    x.isBelow bound = decide (n < bound) := by
  unfold isBelow
  rw [h, Option.any_some]
  exact decide_eq_decide.2 (by exact_mod_cast Iff.rfl)

theorem truncate_eq_towardZero {x : Binary64} {q : ℚ} (h : x.value? = some q) :
    x.truncate = towardZero q := by
  cases x with
  | nan => cases h
  | infinite negative => cases h
  | finite negative rank =>
    cases h
    cases negative with
    | false => exact (towardZero_natCast_div _ _).symm
    | true =>
      rw [if_pos rfl, towardZero_neg, towardZero_natCast_div]
      rfl

theorem isMagnitude_towardZero {x : Binary64} {q : ℚ} (h : x.value? = some q) :
    IsMagnitude (towardZero q).natAbs := by
  rw [← truncate_eq_towardZero h]
  cases x with
  | nan => cases h
  | infinite negative => cases h
  | finite negative rank =>
    rw [natAbs_truncate]
    exact isMagnitude_wholePart rank

theorem value?_two_pow_64 :
    (ofInt 18446744073709551616).value? = some ((18446744073709551616 : ℤ) : ℚ) :=
  isMagnitude_two_pow_64.isInteger_ofInt.1

theorem bmod_two_pow_64 (n : Int) :
    n.bmod (2 ^ 64) =
      if n % 18446744073709551616 < 9223372036854775808 then n % 18446744073709551616
      else n % 18446744073709551616 - 18446744073709551616 := rfl

theorem givesExactly_shifted {rest : Binary64} {n : Int} (h : rest.value? = some (n : ℚ))
    (hdvd : 2048 ∣ n) (hn : n.natAbs < 2 ^ 64) :
    GivesExactly (shifted rest) (n.bmod (2 ^ 64)) := by
  have hunsigned : GivesExactly (if rest.isBelow 0 then
      (Operation.add rest (ofInt 18446744073709551616)).perform else pure rest)
        (n % 18446744073709551616) := by
    have hbelow : rest.isBelow 0 = decide (n < 0) := by exact_mod_cast isBelow_eq h
    rw [hbelow]
    by_cases hneg : n < 0
    · have hmod : n % 18446744073709551616 = n + 18446744073709551616 := by omega
      rw [if_pos (decide_eq_true hneg), hmod]
      exact givesExactly_perform (Operation.value?_add h value?_two_pow_64)
        (isMagnitude_of_2048_dvd (by omega) (by omega))
    · have hmod : n % 18446744073709551616 = n := by omega
      rw [if_neg (by simpa using hneg), hmod]
      exact givesExactly_pure h
  refine hunsigned.bind fun unsigned hvalue => ?_
  have hbelow : unsigned.isBelow 9223372036854775808 =
      decide (n % 18446744073709551616 < 9223372036854775808) := by exact_mod_cast isBelow_eq hvalue
  rw [hbelow]
  by_cases hlow : n % 18446744073709551616 < 9223372036854775808
  · rw [if_pos (decide_eq_true hlow), bmod_two_pow_64, if_pos hlow]
    exact givesExactly_pure hvalue
  · rw [if_neg (by simpa using hlow), bmod_two_pow_64, if_neg hlow]
    exact givesExactly_perform (Operation.value?_sub hvalue value?_two_pow_64)
      (isMagnitude_of_2048_dvd (by omega) (by omega))

/-- A finite number is wrapped around to the integer in range that is congruent to its whole part,
without rounding. -/
theorem givesExactly_wrapped {x : Binary64} {q : ℚ} (h : x.value? = some q) :
    GivesExactly (wrapped x) ((towardZero q).bmod (2 ^ 64)) := by
  have hwhole := isMagnitude_towardZero h
  refine (givesExactly_perform (Operation.value?_trunc h) hwhole).bind fun whole hvalue => ?_
  generalize towardZero q = n at hwhole hvalue ⊢
  have hlow : whole.isBelow (-9223372036854775808) = decide (n < -9223372036854775808) := by
    exact_mod_cast isBelow_eq hvalue
  have hhigh : whole.isBelow 9223372036854775808 = decide (n < 9223372036854775808) := by
    exact_mod_cast isBelow_eq hvalue
  rw [hlow, hhigh]
  by_cases hrange : -9223372036854775808 ≤ n ∧ n < 9223372036854775808
  · have hself : n.bmod (2 ^ 64) = n := Int.bmod_eq_of_le (by omega) (by omega)
    rw [if_pos (by simpa using hrange), hself]
    exact givesExactly_pure hvalue
  · rw [if_neg (by simpa using hrange)]
    have hdvd : 2048 ∣ n.natAbs := hwhole.dvd (by omega)
    have hrest : (n.tmod 18446744073709551616).natAbs < 2 ^ 64 ∧
        n = 18446744073709551616 * n.tdiv 18446744073709551616 + n.tmod 18446744073709551616 := by
      rw [Int.natAbs_tmod, Int.mul_tdiv_add_tmod]
      exact ⟨Nat.mod_lt _ (by decide), rfl⟩
    have hrem := Operation.value?_rem (k := 18446744073709551616) hvalue value?_two_pow_64 (by decide)
    have hcast : ((18446744073709551616 : ℕ) : ℤ) = 18446744073709551616 := rfl
    rw [hcast] at hrem
    generalize n.tmod 18446744073709551616 = rest at hrest hrem
    generalize n.tdiv 18446744073709551616 = quotient at hrest
    have hmod : n % 18446744073709551616 = rest % 18446744073709551616 := by omega
    rw [bmod_two_pow_64, hmod, ← bmod_two_pow_64]
    refine (givesExactly_perform hrem (isMagnitude_of_2048_dvd (by omega) hrest.1)).bind ?_
    exact fun y hy => givesExactly_shifted hy (by omega) hrest.1

end LooseTypes.Binary64
