import LooseTypes.Proofs.Binary64.Shortest
import LooseTypes.Proofs.Binary64.Value
import LooseTypes.Proofs.Binary64.Whole

/-!
# Integers as binary64 numbers

Up to `2 ^ 53` in magnitude every integer is exactly a binary64 number, the nearest one
(`isInteger_ofInt`), and no other integer that is even or of 53 bits is rounded to it
(`eq_of_nearestRank_eq`). So of the decimal numbers with no more digits than the integer has, only
the integer itself reads back, and its text as a binary64 number is its decimal text
(`IsInteger.text_eq`). The other conversions of the number give the integer as well, and the decimal
text of any integer is read as the integer, clamped, and as the number nearest to it
(`toInt64_intText`, `toBinary64_intText`).
-/

namespace LooseTypes.Binary64

variable {n m : Nat}

/-! ## Whole numbers of 53 bits -/

theorem units_nearestRank_of_dvd (h : 2 ^ (n.log2 - 52) ∣ n) :
    units (nearestRank (n * unitsPerOne) 1) = n * unitsPerOne := by
  rcases Nat.eq_zero_or_pos n with rfl | hn
  · rw [Nat.zero_mul, nearestRank_of_div_eq_zero (by decide)]
    rfl
  · have hpow : 2 ^ (n.log2 + 1022) ∣ 2 ^ (n.log2 - 52) * unitsPerOne := by
      rw [unitsPerOne_eq, ← Nat.pow_add]
      exact Nat.pow_dvd_pow 2 (by omega)
    have hdvd : 2 ^ (n.log2 + 1022) ∣ n * unitsPerOne :=
      Nat.dvd_trans hpow (Nat.mul_dvd_mul_right h unitsPerOne)
    have hshift : n.log2 + 1074 - 52 = n.log2 + 1022 := by omega
    rw [units_nearestRank Nat.one_pos, Nat.div_one, Nat.one_mul,
      log2_mul_unitsPerOne (Nat.ne_of_gt hn), hshift,
      roundDiv_of_dvd (Nat.two_pow_pos _) (Nat.mod_eq_zero_of_dvd hdvd), Nat.div_mul_cancel hdvd]

theorem units_nearestRank_of_le (h : n ≤ 2 ^ 53) :
    units (nearestRank (n * unitsPerOne) 1) = n * unitsPerOne := by
  refine units_nearestRank_of_dvd ?_
  rcases Nat.lt_or_eq_of_le h with hlt | rfl
  · have hlog : n.log2 - 52 = 0 := by
      rcases Nat.eq_zero_or_pos n with rfl | hn
      · decide
      · have := (Nat.log2_lt (Nat.ne_of_gt hn)).2 hlt
        omega
    rw [hlog]
    exact Nat.one_dvd n
  · decide

/-- A whole number that is rounded to one of 53 bits is that number, if it is one of them itself or
even. -/
theorem eq_of_nearestRank_eq (hn : n ≤ 2 ^ 53) (hm : m ≤ 2 ^ 53 ∨ 2 ∣ m)
    (h : nearestRank (m * unitsPerOne) 1 = nearestRank (n * unitsPerOne) 1) : m = n := by
  have hunits := congrArg units h
  rw [units_nearestRank_of_le hn] at hunits
  have hcancel : ∀ {k}, k * unitsPerOne = n * unitsPerOne → k = n :=
    fun hk => Nat.eq_of_mul_eq_mul_right unitsPerOne_pos hk
  rcases Nat.lt_or_ge (2 ^ 53) m with hlarge | hle
  · have hlog : 53 ≤ m.log2 := (Nat.le_log2 (by omega)).2 (by omega)
    have heven : 2 ∣ m := hm.resolve_left (by omega)
    rcases Nat.lt_or_eq_of_le hlog with hlt | heq
    · -- rounding keeps the leading bit, which is beyond `n`
      rw [units_nearestRank_whole (by omega)] at hunits
      have hbit : 2 ^ 54 ≤ significant m :=
        Nat.le_trans (Nat.pow_le_pow_right (by decide) hlt)
          (two_pow_log2_le_significant (by omega))
      have := hcancel hunits
      omega
    · rw [units_nearestRank_of_dvd (by rw [← heq]; exact heven)] at hunits
      exact hcancel hunits
  · rw [units_nearestRank_of_le hle] at hunits
    exact hcancel hunits

/-! ## Integers of 53 bits -/

/-- The whole number is a finite magnitude. -/
def IsMagnitude (n : Nat) : Prop := ∃ rank : Fin rankLimit, units rank = n * unitsPerOne

theorem isMagnitude_of_dvd (hmax : n ≤ maxFinite) (h : 2 ^ (n.log2 - 52) ∣ n) : IsMagnitude n :=
  ⟨⟨_, nearestRank_whole_lt hmax⟩, units_nearestRank_of_dvd h⟩

theorem isMagnitude_of_le (h : n ≤ 2 ^ 53) : IsMagnitude n :=
  ⟨⟨_, nearestRank_whole_lt (Nat.le_trans h (by decide +kernel))⟩, units_nearestRank_of_le h⟩

/-- An integer whose magnitude is one of the finite ones is its own nearest number. -/
theorem IsMagnitude.isInteger_ofInt {n : Int} (h : IsMagnitude n.natAbs) : (ofInt n).IsInteger n := by
  obtain ⟨rank, hrank⟩ := h
  refine isInteger_iff.2 ⟨rank, ?_, hrank⟩
  rw [ofInt, ofRatio, ← hrank, nearestRank_units, ofRank_of_lt]

theorem isInteger_ofInt {n : Int} (h : n.natAbs ≤ 2 ^ 53) : (ofInt n).IsInteger n :=
  (isMagnitude_of_le h).isInteger_ofInt

theorem existsUnique_isInteger {n : Int} (h : n.natAbs ≤ 2 ^ 53) :
    ∃! x : Binary64, x.IsInteger n :=
  ⟨ofInt n, isInteger_ofInt h, fun _ hx => hx.unique (isInteger_ofInt h)⟩

/-! ## The shortest decimal -/

theorem withDigits_natCast (count c k : Nat) :
    0 ≤ (withDigits count c k).exponent ∧ (withDigits count c k).num = c * 10 ^ k := by
  rw [withDigits_eq]
  split
  next h =>
    refine ⟨Int.natCast_nonneg (k + count), ?_⟩
    rw [Decimal.num_eq, Nat.one_mul, h, ← Nat.pow_add, Nat.add_comm]
    rfl
  next => exact ⟨Int.natCast_nonneg k, rfl⟩

section Shortest

variable {rank : Fin rankLimit} {tie : Tie} {count : Nat} {d : Decimal}

theorem num_eq_of_readsBack (hrank : units rank = n * unitsPerOne) (hn : n ≤ 2 ^ 53)
    (hexponent : 0 ≤ d.exponent) (hnum : d.num ≤ 2 ^ 53 ∨ 2 ∣ d.num)
    (h : readsBack rank d = true) : d.num = n := by
  have hread := nearestRank_of_readsBack h
  rw [Decimal.den_of_nonneg hexponent] at hread
  refine eq_of_nearestRank_eq hn hnum ?_
  rw [hread, ← hrank, nearestRank_units]

theorem leadingExponent_whole (hrank : units rank = n * unitsPerOne) (hn : 0 < n) :
    leadingExponent rank + 1 = (digits n).length := by
  have hlength := length_digits_pos n
  have hone : unitsPerOne ≤ n * unitsPerOne := Nat.le_mul_of_pos_left _ hn
  rw [leadingExponent, hrank, if_pos hone, Nat.mul_div_cancel n unitsPerOne_pos,
    Int.ofNat_eq_natCast]
  omega

/-- The candidates with no more digits than the whole number has are whole numbers. -/
theorem neighbour?_whole (hrank : units rank = n * unitsPerOne) (hn : 0 < n) {k : Nat}
    (hk : count + k = (digits n).length) :
    neighbour? tie rank count =
      ([roundDiv tie n (10 ^ k),
        if roundDiv tie n (10 ^ k) = n / 10 ^ k then n / 10 ^ k + 1 else n / 10 ^ k].map
          (withDigits count · k)).find? (readsBack rank) := by
  have hexponent : leadingExponent rank + 1 - count = k := by
    rw [leadingExponent_whole hrank hn]
    omega
  have hneg : (-(k : Int)).toNat = 0 := Int.toNat_of_nonpos (by omega)
  simp only [neighbour?_eq, hexponent, hrank, hneg, Int.toNat_natCast, Nat.pow_zero, Nat.mul_one,
    Nat.mul_comm unitsPerOne, Nat.mul_div_mul_right n _ unitsPerOne_pos,
    roundDiv_mul_right unitsPerOne_pos]

/-- With all its digits a whole number is its own neighbour. -/
theorem neighbour?_length (hrank : units rank = n * unitsPerOne) (hn : 0 < n) :
    neighbour? tie rank (digits n).length = some ⟨n, 0⟩ := by
  have hself : withDigits (digits n).length (roundDiv tie n (10 ^ 0)) (0 : Nat) = ⟨n, 0⟩ := by
    have hne : n ≠ 10 ^ (digits n).length :=
      Nat.ne_of_lt ((Nat.length_toDigits_le_iff (by decide) (length_digits_pos n)).1 Nat.le.refl)
    rw [Nat.pow_zero, roundDiv_of_dvd Nat.one_pos (Nat.mod_one n), Nat.div_one, withDigits_eq,
      if_neg hne]
    rfl
  have hread : readsBack rank ⟨n, 0⟩ = true := by
    rw [readsBack, beq_iff_eq, ofDecimal_whole, ofRatio, ← hrank, nearestRank_units]
  rw [neighbour?_whole hrank hn (Nat.add_zero _), List.map_cons, hself, List.find?_cons_of_pos hread]

/-- A neighbour with fewer digits ends in a zero, and only the whole number itself does so and reads
back. -/
theorem num_neighbour? (hrank : units rank = n * unitsPerOne) (hn : 0 < n) (hle : n ≤ 2 ^ 53)
    (hcount : count ≤ (digits n).length) (h : neighbour? tie rank count = some d) :
    0 ≤ d.exponent ∧ d.num = n := by
  obtain ⟨k, hk⟩ := Nat.exists_eq_add_of_le hcount
  rcases Nat.eq_zero_or_pos k with rfl | hpos
  · rw [Nat.add_zero] at hk
    rw [← hk, neighbour?_length hrank hn] at h
    cases h
    exact ⟨Int.le_refl 0, by simp [Decimal.num_eq]⟩
  · have hmem := h
    rw [neighbour?_whole hrank hn hk.symm] at hmem
    obtain ⟨c, -, rfl⟩ := List.mem_map.1 (List.mem_of_find?_eq_some hmem)
    obtain ⟨hexponent, hnum⟩ := withDigits_natCast count c k
    refine ⟨hexponent, num_eq_of_readsBack hrank hle hexponent (.inr ?_) (readsBack_of_neighbour? h)⟩
    have hten : 2 ∣ 10 ^ k := Nat.dvd_trans (by decide) (Nat.pow_dvd_pow 10 hpos)
    rw [hnum]
    exact Nat.dvd_trans hten (Nat.dvd_mul_left _ c)

/-- The shortest decimal of a whole number is written without a point. -/
theorem num_shortest (hrank : units rank = n * unitsPerOne) (hle : n ≤ 2 ^ 53) :
    0 ≤ (shortest tie rank).exponent ∧ (shortest tie rank).num = n := by
  rcases Nat.eq_zero_or_pos n with rfl | hn
  · rw [Nat.zero_mul, units_eq_zero_iff] at hrank
    rw [shortest, if_pos hrank]
    exact ⟨Int.le_refl 0, rfl⟩
  · have hlength := length_digits_pos n
    have hlength' : (digits n).length ≤ 16 :=
      (Nat.length_toDigits_le_iff (by decide) (by decide)).2 (Nat.lt_of_le_of_lt hle (by decide))
    have hrange : List.range' 1 17 =
        List.range' 1 (digits n).length ++ List.range' (1 + (digits n).length)
          (17 - (digits n).length) := by
      rw [List.range'_append_1, Nat.add_sub_cancel' (by omega)]
    have hfound : ((List.range' 1 (digits n).length).findSome? (neighbour? tie rank)).isSome := by
      refine List.findSome?_isSome_iff.2 ⟨_, List.mem_range'_1.2 ⟨hlength, by omega⟩, ?_⟩
      rw [neighbour?_length hrank hn]
      rfl
    obtain ⟨d, hd⟩ := Option.isSome_iff_exists.1 hfound
    obtain ⟨count, hcount, hneighbour⟩ := List.exists_of_findSome?_eq_some hd
    have hne : rank.val ≠ 0 := fun h => by
      rw [units_eq_zero_iff.2 h] at hrank
      exact Nat.ne_of_lt (Nat.mul_pos hn unitsPerOne_pos) hrank
    rw [shortest, if_neg hne, hrange, List.findSome?_append, hd, Option.some_or, Option.getD_some]
    rw [List.mem_range'_1] at hcount
    exact num_neighbour? hrank hn hle (by omega) hneighbour

end Shortest

/-! ## The conversions of a number that is an integer -/

theorem magnitude_plain_shortest {rank : Fin rankLimit} (hrank : units rank = n * unitsPerOne)
    (hle : n ≤ 2 ^ 53) : Layout.plain.magnitude (shortest .up rank) = digits n := by
  rcases Nat.eq_zero_or_pos n with rfl | hn
  · rw [Nat.zero_mul, units_eq_zero_iff] at hrank
    rw [shortest, if_pos hrank]
    rfl
  · obtain ⟨hexponent, hnum⟩ := @num_shortest n rank .up hrank hle
    have hcoefficient : 0 < (shortest .up rank).coefficient := by
      refine Nat.pos_of_ne_zero fun hzero => ?_
      rw [Decimal.num_eq, hzero, Nat.zero_mul] at hnum
      omega
    have hdigits := digits_mul_ten_pow hcoefficient (shortest .up rank).exponent.toNat
    rw [← Decimal.num_eq, hnum] at hdigits
    have hpositional : ∀ e, Layout.plain.isPositional e = true := fun _ => rfl
    have hmark : Layout.plain.wholeMark = [] := rfl
    rw [Layout.magnitude]
    simp only [if_pos (hpositional _), if_pos hexponent, hmark, List.append_nil]
    exact hdigits.symm

namespace IsInteger

variable {x : Binary64} {n : Int}

theorem truncate_eq (h : x.IsInteger n) : x.truncate = n := by
  obtain ⟨rank, rfl, hunits⟩ := isInteger_iff.1 h
  have hdiv : units rank / unitsPerOne = n.natAbs := by
    rw [hunits, Nat.mul_div_cancel _ unitsPerOne_pos]
  by_cases hn : n < 0
  · rw [decide_eq_true hn, truncate, hdiv, Int.ofNat_eq_natCast]
    omega
  · rw [decide_eq_false hn, truncate, hdiv, Int.ofNat_eq_natCast]
    omega

theorem isNonzero_eq (h : x.IsInteger n) : x.isNonzero = decide (n ≠ 0) := by
  obtain ⟨rank, rfl, hunits⟩ := isInteger_iff.1 h
  have hrank : rank.val = 0 ↔ n = 0 := by
    rw [← units_eq_zero_iff, hunits, Nat.mul_eq_zero, or_iff_left (Nat.ne_of_gt unitsPerOne_pos),
      Int.natAbs_eq_zero]
  have hequal : (finite (decide (n < 0)) rank).numEq (zero false) = decide (n = 0) := by
    by_cases hn : n = 0
    · simp [numEq, zero, hn, Fin.ext_iff, hrank]
    · simp [numEq, zero, hn, Fin.ext_iff, hrank]
  rw [isNonzero, hequal, decide_not]

theorem text_eq (h : x.IsInteger n) (hle : n.natAbs ≤ 2 ^ 53) :
    x.text = String.ofList (intText n) := by
  obtain ⟨rank, rfl, hunits⟩ := isInteger_iff.1 h
  have htie : Layout.plain.tie = .up := rfl
  simp only [text, Layout.finite, htie, magnitude_plain_shortest hunits hle, intText,
    decide_eq_true_eq]

theorem toUint64_eq (h : x.IsInteger n) :
    (Value.float x).toUint64 = String.ofList (uint64Text n) := by
  obtain ⟨rank, rfl, hunits⟩ := isInteger_iff.1 h
  rw [Value.toUint64, clampDecimal_sixPlaces_whole _ hunits, signed_natAbs]

end IsInteger

/-! ## The text of an integer -/

theorem toInt64_intText (n : Int) :
    (Value.str (String.ofList (intText n))).toInt64 = Int64.ofIntClamp n := by
  have htruncate : Numeral.truncate ⟨decide (n < 0), digits n.natAbs, []⟩ = n := by
    rw [Numeral.truncate, ofDigits_digits, signed_natAbs]
  rw [Value.toInt64, String.toList_ofList, Numeral.scan_intText, Option.map_some, Option.getD_some,
    Numeral.toInt64, htruncate]

theorem toBinary64_intText (n : Int) :
    (Value.str (String.ofList (intText n))).toBinary64 = ofInt n := by
  rw [Value.toBinary64, String.toList_ofList, Numeral.scan_intText, Option.map_some,
    Option.getD_some, toBinary64_numeral, ofInt]

end LooseTypes.Binary64
