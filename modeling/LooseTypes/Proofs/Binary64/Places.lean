import LooseTypes.Proofs.Binary64.Order
import Mathlib.Algebra.Order.Field.Basic
import Mathlib.Tactic.FieldSimp

/-!
# Rounding to decimal places

`IsRounded places q r` says that `r` is the multiple of `10 ^ -places` nearest to `q`, ties to even;
there is at most one (`IsRounded.unique`), and rounding keeps the order (`IsRounded.mono`). The text
of a number with six places denotes its exact value rounded to six places (`isRounded_fixedText`). A
rounded number has the integer part of the number itself, unless this is half a unit of the last place
below an integer, or nearer (`IsRounded.towardZero_eq_iff`).
-/

namespace LooseTypes

/-! ## The nearest integer -/

/-- The integer nearest to `q`, and the even one if two are equally near. -/
structure IsNearestEven (q : ℚ) (n : ℤ) : Prop where
  near : |q - n| ≤ 1 / 2
  even : |q - n| = 1 / 2 → Even n

namespace IsNearestEven

variable {p q : ℚ} {m n : ℤ}

theorem neg (h : IsNearestEven q n) : IsNearestEven (-q) (-n) := by
  have habs : |-q - ((-n : ℤ) : ℚ)| = |q - n| := by
    rw [← abs_neg]
    congr 1
    push_cast
    ring
  exact ⟨by rw [habs]; exact h.near, fun htie => (h.even (habs ▸ htie)).neg⟩

theorem unique (hm : IsNearestEven q m) (hn : IsNearestEven q n) : m = n := by
  have hm' := abs_le.1 hm.near
  have hn' := abs_le.1 hn.near
  have hle : m ≤ n + 1 := by exact_mod_cast (by linarith : (m : ℚ) ≤ n + 1)
  have hge : n ≤ m + 1 := by exact_mod_cast (by linarith : (n : ℚ) ≤ m + 1)
  -- of two neighbours at the same distance only one is even
  have hties : m = n + 1 ∨ n = m + 1 → |q - m| = 1 / 2 ∧ |q - n| = 1 / 2 := by
    rintro (rfl | rfl)
    · push_cast at hm' ⊢
      exact ⟨by rw [abs_of_nonpos] <;> linarith, by rw [abs_of_nonneg] <;> linarith⟩
    · push_cast at hn' ⊢
      exact ⟨by rw [abs_of_nonneg] <;> linarith, by rw [abs_of_nonpos] <;> linarith⟩
  have heven : m = n + 1 ∨ n = m + 1 → m % 2 = 0 ∧ n % 2 = 0 := fun h =>
    ⟨Int.even_iff.1 (hm.even (hties h).1), Int.even_iff.1 (hn.even (hties h).2)⟩
  omega

theorem mono (hp : IsNearestEven p m) (hq : IsNearestEven q n) (h : p ≤ q) : m ≤ n := by
  by_contra hlt
  have hle : (n : ℚ) + 1 ≤ m := by exact_mod_cast (by omega : n + 1 ≤ m)
  have hp' := abs_le.1 hp.near
  have hq' := abs_le.1 hq.near
  have heq : p = q := by linarith
  subst heq
  exact hlt (le_of_eq (hp.unique hq))

/-- Half a unit below an even integer is enough to be rounded to it. -/
theorem le_iff (h : IsNearestEven q n) {k : ℤ} (hk : Even k) : k ≤ n ↔ (k : ℚ) - 1 / 2 ≤ q := by
  have hnear := abs_le.1 h.near
  constructor
  · intro hle
    have : (k : ℚ) ≤ n := by exact_mod_cast hle
    linarith
  · intro hle
    by_contra hlt
    have hle' : (n : ℚ) + 1 ≤ k := by exact_mod_cast (by omega : n + 1 ≤ k)
    have hn : (n : ℚ) + 1 = k := by linarith
    have heven := Int.even_iff.1 (h.even (by rw [abs_of_nonneg] <;> linarith))
    have hk' := Int.even_iff.1 hk
    have : n + 1 = k := by exact_mod_cast hn
    omega

end IsNearestEven

theorem isNearestEven_roundDiv (n : ℕ) {d : ℕ} (hd : 0 < d) :
    IsNearestEven (n / d) (roundDiv .even n d) := by
  have hd' : (0 : ℚ) < d := by exact_mod_cast hd
  have hsplit : (n : ℚ) / d = (n / d : ℕ) + (n % d : ℕ) / d := by
    have hn : (n : ℚ) = d * (n / d : ℕ) + (n % d : ℕ) := by exact_mod_cast (Nat.div_add_mod n d).symm
    rw [eq_comm, ← sub_eq_zero]
    field_simp
    linarith
  have hmod : ((n % d : ℕ) : ℚ) / d < 1 := by
    rw [div_lt_one hd']
    exact_mod_cast Nat.mod_lt n hd
  have hnonneg : (0 : ℚ) ≤ (n % d : ℕ) / d := by positivity
  have hlow : ((n % d : ℕ) : ℚ) / d ≤ 1 / 2 ↔ 2 * (n % d) ≤ d := by
    rw [div_le_div_iff₀ hd' two_pos, one_mul, mul_comm]
    exact_mod_cast Iff.rfl
  have hhigh : 1 / 2 ≤ ((n % d : ℕ) : ℚ) / d ↔ d ≤ 2 * (n % d) := by
    rw [div_le_div_iff₀ two_pos hd', one_mul, mul_comm _ (2 : ℚ)]
    exact_mod_cast Iff.rfl
  have hparity : Tie.even.staysAt (n / d) = true ↔ n / d % 2 = 0 := beq_iff_eq
  unfold roundDiv
  dsimp only
  rw [hsplit]
  generalize n / d = k at hparity ⊢
  generalize n % d = r at hmod hnonneg hlow hhigh ⊢
  split
  next hstays =>
    have hdistance : |(k : ℚ) + r / d - ((k : ℕ) : ℤ)| = r / d := by
      rw [Int.cast_natCast, add_sub_cancel_left, abs_of_nonneg hnonneg]
    simp only [Bool.or_eq_true, Bool.and_eq_true, decide_eq_true_eq, beq_iff_eq, hparity] at hstays
    refine ⟨?_, fun htie => Int.even_iff.2 ?_⟩
    · rw [hdistance, hlow]
      omega
    · rw [hdistance] at htie
      have := hhigh.1 (le_of_eq htie.symm)
      omega
  next hmoves =>
    have hdistance : |(k : ℚ) + r / d - ((k + 1 : ℕ) : ℤ)| = 1 - r / d := by
      rw [abs_of_nonpos] <;> push_cast <;> linarith
    simp only [Bool.or_eq_true, Bool.and_eq_true, decide_eq_true_eq, beq_iff_eq, hparity] at hmoves
    refine ⟨?_, fun htie => Int.even_iff.2 ?_⟩
    · have := hhigh.2 (by omega)
      rw [hdistance]
      linarith
    · have := hlow.1 (by linarith)
      omega

/-! ## Rounded numbers -/

/-- `r` is `q` rounded to a number of decimal places, ties to even. -/
def IsRounded (places : ℕ) (q r : ℚ) : Prop :=
  ∃ n : ℤ, r = n / (10 ^ places : ℕ) ∧ IsNearestEven (q * (10 ^ places : ℕ)) n

section IsRounded

variable {places : ℕ} {p q r s : ℚ}

theorem isRounded_div (negative : Bool) (n places : ℕ) {d : ℕ} (hd : 0 < d) :
    IsRounded places (if negative then -(n / d) else n / d)
      ((if negative then -1 else 1) *
        (roundDiv .even (n * 10 ^ places) d / (10 ^ places : ℕ))) := by
  have hround := isNearestEven_roundDiv (n * 10 ^ places) hd
  have hcomm : ((n * 10 ^ places : ℕ) : ℚ) / d = n / d * (10 ^ places : ℕ) := by
    rw [Nat.cast_mul, mul_div_right_comm]
  rw [hcomm] at hround
  cases negative with
  | false =>
    rw [if_neg Bool.false_ne_true, if_neg Bool.false_ne_true, one_mul]
    exact ⟨_, by rw [Int.cast_natCast], hround⟩
  | true =>
    rw [if_pos rfl, if_pos rfl, neg_one_mul]
    refine ⟨-(roundDiv .even (n * 10 ^ places) d : ℤ), ?_, ?_⟩
    · rw [Int.cast_neg, Int.cast_natCast, neg_div]
    · rw [neg_mul]
      exact hround.neg

theorem IsRounded.unique (hr : IsRounded places q r) (hs : IsRounded places q s) : r = s := by
  obtain ⟨m, rfl, hm⟩ := hr
  obtain ⟨n, rfl, hn⟩ := hs
  rw [hm.unique hn]

theorem IsRounded.mono (hr : IsRounded places p r) (hs : IsRounded places q s) (h : p ≤ q) :
    r ≤ s := by
  obtain ⟨m, rfl, hm⟩ := hr
  obtain ⟨n, rfl, hn⟩ := hs
  have hle : (m : ℚ) ≤ n := by
    exact_mod_cast hm.mono hn (mul_le_mul_of_nonneg_right h (Nat.cast_nonneg _))
  exact div_le_div_of_nonneg_right hle (Nat.cast_nonneg _)

/-- Half a unit of the last place below an integer is enough to be rounded up to it. -/
theorem IsRounded.le_towardZero_iff (h : IsRounded places q r) (hplaces : places ≠ 0) (hq : 0 ≤ q)
    {k : ℤ} : k ≤ towardZero r ↔ (k : ℚ) - 1 / (2 * (10 ^ places : ℕ)) ≤ q := by
  obtain ⟨n, rfl, hn⟩ := h
  obtain ⟨half, hhalf⟩ : 2 ∣ 10 ^ places := dvd_pow (by decide) hplaces
  have hpos : (0 : ℚ) < (10 ^ places : ℕ) := by exact_mod_cast Nat.pow_pos (by decide)
  generalize 10 ^ places = unit at hn hhalf hpos ⊢
  have hnonneg : 0 ≤ n := by
    have := mul_nonneg hq hpos.le
    exact (hn.le_iff Even.zero).2 (by push_cast; linarith)
  have heven : Even (k * unit) := by
    rw [hhalf]
    exact ⟨k * half, by push_cast; ring⟩
  have hfloor : k ≤ towardZero (n / unit) ↔ k * unit ≤ n := by
    rw [towardZero, if_pos (div_nonneg (by exact_mod_cast hnonneg) hpos.le), Int.le_floor,
      le_div_iff₀ hpos]
    exact_mod_cast Iff.rfl
  have hscale : ((k * unit : ℤ) : ℚ) - 1 / 2 = (k - 1 / (2 * unit)) * unit := by
    push_cast
    field_simp
  rw [hfloor, hn.le_iff heven, hscale, mul_le_mul_iff_left₀ hpos]

theorem IsRounded.towardZero_le (h : IsRounded places q r) (hplaces : places ≠ 0) (hq : 0 ≤ q) :
    towardZero q ≤ towardZero r := by
  have hpos : (0 : ℚ) < 1 / (2 * (10 ^ places : ℕ)) := by positivity
  have hfloor : towardZero q = ⌊q⌋ := if_pos hq
  rw [h.le_towardZero_iff hplaces hq, hfloor]
  have := Int.floor_le q
  linarith

/-- Rounding leaves the integer part alone unless there is an integer that near above. -/
theorem IsRounded.towardZero_eq_iff (h : IsRounded places q r) (hplaces : places ≠ 0)
    (hq : 0 ≤ q) : towardZero r = towardZero q ↔
      ¬ ∃ k : ℤ, q < k ∧ k - q ≤ 1 / (2 * (10 ^ places : ℕ)) := by
  have hle := h.towardZero_le hplaces hq
  have hfloor : towardZero q = ⌊q⌋ := if_pos hq
  rw [hfloor] at hle ⊢
  constructor
  · rintro heq ⟨k, hlt, hnear⟩
    have hk : k ≤ towardZero r := by
      rw [h.le_towardZero_iff hplaces hq]
      linarith
    have := Int.floor_lt.2 hlt
    omega
  · intro hnone
    by_contra hne
    refine hnone ⟨⌊q⌋ + 1, by exact_mod_cast Int.lt_floor_add_one q, ?_⟩
    have := (h.le_towardZero_iff hplaces hq (k := ⌊q⌋ + 1)).1 (by omega)
    linarith

end IsRounded

/-! ## The text with six places -/

namespace Binary64

/-- The text of a number with six places; NaN and the infinities have words. -/
def fixedText : Binary64 → List Char
  | .nan => "NaN".toList
  | .infinite false => "inf".toList
  | .infinite true => "-inf".toList
  | .finite negative rank => sixPlaces negative rank

/-- The six digits of a number of millionths below one. -/
theorem length_paddedDigits {n : ℕ} (h : n < 10 ^ 6) :
    (List.replicate (6 - (digits n).length) '0' ++ digits n).length = 6 := by
  have hle : (digits n).length ≤ 6 := (Nat.length_toDigits_le_iff (by decide) (by decide)).2 h
  rw [List.length_append, List.length_replicate]
  omega

theorem leadingValue_sixPlaces (negative : Bool) (rank : ℕ) :
    leadingValue (sixPlaces negative rank) = (if negative then -1 else 1) *
      (roundDiv .even (units rank * 10 ^ 6) unitsPerOne / (10 ^ 6 : ℕ)) := by
  generalize hm : roundDiv .even (units rank * 10 ^ 6) unitsPerOne = millionths
  have hlength := length_paddedDigits (Nat.mod_lt millionths (Nat.pow_pos (Nat.succ_pos 9)))
  have hdigits : ∀ c ∈ List.replicate (6 - (digits (millionths % 10 ^ 6)).length) '0' ++
      digits (millionths % 10 ^ 6), c.isDigit = true :=
    List.forall_mem_append.2 ⟨isDigit_of_mem_replicate, fun c => isDigit_of_mem_digits⟩
  have hvalue : ofDigits (List.replicate (6 - (digits (millionths % 10 ^ 6)).length) '0' ++
      digits (millionths % 10 ^ 6)) = millionths % 10 ^ 6 := by
    rw [ofDigits_zeros_append, ofDigits_digits]
  unfold sixPlaces
  dsimp only
  rw [show 1000000 = 10 ^ 6 from rfl, hm]
  generalize List.replicate (6 - (digits (millionths % 10 ^ 6)).length) '0' ++
      digits (millionths % 10 ^ 6) = fraction at hlength hdigits hvalue ⊢
  have hpoint : ∀ c ∈ ('.' :: fraction).head?, c.isDigit = false := by
    intro c hc
    cases hc
    rfl
  have hfraction : Numeral.fractionOf ('.' :: fraction) = fraction :=
    List.takeWhile_eq_self_iff.2 hdigits
  rw [leadingValue, Numeral.scan_signed (millionths / 10 ^ 6) negative hpoint, hfraction,
    Option.map_some, Option.getD_some, Numeral.value, ofDigits_append, ofDigits_digits, hvalue,
    hlength, Nat.div_add_mod']

theorem isRounded_fixedText {x : Binary64} {q : ℚ} (h : x.value? = some q) :
    IsRounded 6 q (leadingValue x.fixedText) := by
  cases x with
  | nan => cases h
  | infinite negative => cases h
  | finite negative rank =>
    cases h
    rw [fixedText, leadingValue_sixPlaces]
    exact isRounded_div negative (units rank) 6 unitsPerOne_pos

theorem toUint64_float (x : Binary64) :
    (Value.float x).toUint64 = String.ofList (clampDecimal x.fixedText) := by
  cases x with
  | nan => rfl
  | infinite negative => cases negative <;> rfl
  | finite negative rank => rfl

end Binary64

end LooseTypes
