import LooseTypes.Proofs.Command.Coerce
import LooseTypes.Proofs.Value.Interchange

/-!
# Integers through the coercion command

The decimal text of an integer is a JSON number. One in the signed 64-bit range is read as itself.
Any other is read as the nearest binary64 number as long as its digits fit in 64 bits, and from there
on as a number outside the unsigned range. So as an unsigned integer it counts in full below `2 ^ 63`,
and rounded to a multiple of `2048` from there to `2 ^ 64` (`Value.exists_ofJsonText?_intText`).
-/

namespace LooseTypes

open Binary64

/-! ## Reading an integer -/

namespace Json

theorem parse?_of_number? {text : List Char} {t : Token} (h : number? text = some t)
    (htext : ∀ c ∈ text, isNumberChar c = true) :
    parse? (String.ofList text) = ofTokens? [t] := by
  rw [parse?, String.toList_ofList, tokens?_of_number? h htext, Option.bind_some]

end Json

namespace Value

variable {n : Int}

theorem ofJsonText?_of_int64 (i : Int64) :
    ofJsonText? (String.ofList (intText i.toInt)) = some (.int i) := by
  have hnumber : Json.number? (intText i.toInt) = some (.int i) :=
    Json.number?_intText (int64?_eq_some_iff.2 rfl)
  rw [ofJsonText?, Json.parse?_of_number? hnumber Json.isNumberChar_of_mem_intText]
  rfl

/-- What an integer counts as once it has been read: from `2 ^ 63` on to `2 ^ 64`, only multiples of
`2048` are binary64 numbers. -/
def unsignedRead (n : Int) : Int :=
  if 2 ^ 63 ≤ n ∧ n < 2 ^ 64 then roundDiv .even n.natAbs 2048 * 2048 else n

/-! ## Integers that are read as products -/

theorem ofJsonText?_of_significand {m : Nat} {left : List Char} (hrange : int64? n = none)
    (hm : Json.significand 0 (digits n.natAbs) = (m, left))
    (hfinite : Json.scaledRank m left.length < rankLimit) :
    ofJsonText? (String.ofList (intText n)) =
      some (.float (.finite (decide (n < 0)) ⟨Json.scaledRank m left.length, hfinite⟩)) := by
  have hnumber := Json.number?_intText_of_large hrange hm
  rw [Json.float?_of_lt _ hfinite] at hnumber
  rw [ofJsonText?, Json.parse?_of_number? hnumber Json.isNumberChar_of_mem_intText]
  rfl

theorem uint64Text_significant (hrange : int64? n = none) (hmax : n.natAbs ≤ uint64Max) :
    uint64Text (if decide (n < 0) then -(significant n.natAbs : Int) else significant n.natAbs) =
      uint64Text (unsignedRead n) := by
  rcases int64?_eq_none_iff.1 hrange with hneg | hpos
  · have hread : unsignedRead n = n := if_neg (by omega)
    rw [hread, if_pos (by simpa using (by omega : n < 0)), uint64Text_of_nonpos (by omega),
      uint64Text_of_nonpos (by omega)]
  · rw [uint64Max] at hmax
    have hlog : n.natAbs.log2 = 63 := (Nat.log2_eq_iff (by omega)).2 (by omega)
    rw [if_neg (by simpa using (by omega : 0 ≤ n)), unsignedRead, if_pos (by omega), significant,
      hlog]
    norm_num

/-- As long as all digits fit in 64 bits, the nearest number is read. -/
theorem exists_ofJsonText?_of_le (hrange : int64? n = none) (hmax : n.natAbs ≤ uint64Max) :
    ∃ v, ofJsonText? (String.ofList (intText n)) = some v ∧
      v.toUint64 = String.ofList (uint64Text (unsignedRead n)) := by
  have hm : Json.significand 0 (digits n.natAbs) = (n.natAbs, []) := Json.significand_digits hmax
  have hrank : Json.scaledRank n.natAbs 0 = natRank n.natAbs :=
    (Json.scaledRank_of_nonneg (Nat.zero_le 308)).trans (mulRank_natRank_one _)
  have hfinite : Json.scaledRank n.natAbs 0 < rankLimit :=
    hrank ▸ nearestRank_whole_lt (Nat.le_trans hmax (by decide +kernel))
  have hlarge := int64?_eq_none_iff.1 hrange
  have hlog : 52 ≤ n.natAbs.log2 := (Nat.le_log2 (by omega)).2 (by omega)
  refine ⟨_, ofJsonText?_of_significand hrange hm hfinite, ?_⟩
  have hunits : units (Json.scaledRank n.natAbs 0) = significant n.natAbs * unitsPerOne :=
    hrank ▸ units_nearestRank_whole hlog
  exact congrArg String.ofList ((clampDecimal_sixPlaces_whole _ hunits).trans
    (uint64Text_significant hrange hmax))

/-- The least significand of an integer with digits left out gives at least `2 ^ 64`. -/
theorem le_units_mulRank_tenRank {m k : Nat} (hm : uint64Max < 10 * m + 10) (hk : 1 ≤ k) :
    2 ^ 64 * unitsPerOne ≤ units (mulRank (natRank m) (Json.tenRank k)) := by
  have hleast : 2 ^ 64 * unitsPerOne =
      units (mulRank (natRank 1844674407370955161) (Json.tenRank 1)) := by decide +kernel
  have hsignificand : 1844674407370955161 ≤ m := by
    rw [uint64Max] at hm
    omega
  rw [hleast, units_le_units_iff]
  exact mulRank_mono (natRank_mono hsignificand) (natRank_mono (ten_pow_le_ten_pow hk))

/-- Beyond 64 bits some digits are left out, and the others are nearly as many as 64 bits hold. -/
theorem exists_significand_of_lt {n : Nat} (hlarge : uint64Max < n) (h : n < 10 ^ 308) :
    ∃ m left, Json.significand 0 (digits n) = (m, left) ∧ uint64Max < 10 * m + 10 ∧
      1 ≤ left.length ∧ left.length ≤ 308 ∧ m * 10 ^ left.length ≤ 10 ^ 308 := by
  obtain ⟨⟨m, left⟩, hm⟩ : ∃ parts, Json.significand 0 (digits n) = parts := ⟨_, rfl⟩
  obtain ⟨hlow, hhigh, hfits, hleft⟩ := Json.significand_digits_spec hm
  have hone : 1 ≤ left.length := by
    by_contra hnone
    rw [show left.length = 0 by omega, Nat.pow_zero] at hhigh
    omega
  have hleast := hleft.resolve_left (List.ne_nil_of_length_pos hone)
  have hproduct : m * 10 ^ left.length ≤ 10 ^ 308 := Nat.le_of_lt (Nat.lt_of_le_of_lt hlow h)
  refine ⟨m, left, hm, hleast, hone, ?_, hproduct⟩
  by_contra hlong
  have hpower : 10 ^ left.length ≤ 10 ^ 308 := by
    refine Nat.le_trans (Nat.le_mul_of_pos_left _ ?_) hproduct
    rw [uint64Max] at hleast
    omega
  have hlast : 10 ^ (308 + 1) ≤ 10 ^ 308 :=
    Nat.le_trans (ten_pow_le_ten_pow (Nat.lt_of_not_le hlong)) hpower
  exact absurd hlast (by decide +kernel)

/-- With digits left out the number may be a neighbour of the nearest one, but it is not in the
unsigned range either. -/
theorem exists_ofJsonText?_of_lt (hlarge : uint64Max < n.natAbs) (h : n.natAbs < 10 ^ 308) :
    ∃ v, ofJsonText? (String.ofList (intText n)) = some v ∧
      v.toUint64 = String.ofList (uint64Text (unsignedRead n)) := by
  obtain ⟨m, left, hm, hleast, hone, hmax, hproduct⟩ := exists_significand_of_lt hlarge h
  rw [uint64Max] at hlarge
  have hrange : int64? n = none := int64?_eq_none_iff.2 (by omega)
  have hrank := Json.scaledRank_of_nonneg (c := m) hmax
  have hfinite : Json.scaledRank m left.length < rankLimit := hrank ▸ mulRank_natRank_lt hproduct
  have hunits : 2 ^ 64 * unitsPerOne ≤ units (Json.scaledRank m left.length) :=
    hrank ▸ le_units_mulRank_tenRank hleast hone
  obtain ⟨w, hw⟩ := unitsPerOne_dvd_units
    (Nat.le_trans (Nat.mul_le_mul_right _ (by decide)) hunits)
  rw [Nat.mul_comm] at hw
  rw [hw] at hunits
  have hwhole : 2 ^ 64 ≤ w := Nat.le_of_mul_le_mul_right hunits unitsPerOne_pos
  have hread : unsignedRead n = n := if_neg (by omega)
  refine ⟨_, ofJsonText?_of_significand hrange hm hfinite, ?_⟩
  refine congrArg String.ofList ((clampDecimal_sixPlaces_whole _ hw).trans ?_)
  rw [hread]
  rcases Int.lt_or_le n 0 with hneg | hpos
  · rw [if_pos (decide_eq_true hneg), uint64Text_of_nonpos (by omega),
      uint64Text_of_nonpos (by omega)]
  · rw [if_neg (by simpa using hpos), uint64Text_of_le (by unfold uint64Max; omega),
      uint64Text_of_le (by unfold uint64Max; omega)]

theorem exists_ofJsonText?_intText (h : n.natAbs < 10 ^ 308) :
    ∃ v, ofJsonText? (String.ofList (intText n)) = some v ∧
      v.toUint64 = String.ofList (uint64Text (unsignedRead n)) := by
  cases hrange : int64? n with
  | some i =>
    obtain rfl := int64?_eq_some_iff.1 hrange
    have hlt := i.toInt_lt
    have hread : unsignedRead i.toInt = i.toInt := if_neg (by omega)
    exact ⟨.int i, ofJsonText?_of_int64 i, by rw [toUint64_int, hread]⟩
  | none =>
    rcases Nat.lt_or_ge uint64Max n.natAbs with hlarge | hmax
    · exact exists_ofJsonText?_of_lt hlarge h
    · exact exists_ofJsonText?_of_le hrange hmax

end Value

/-! ## The command -/

variable {inputs : Inputs}

theorem outcome_coerceArguments_uint64 {data : String} {v : Value}
    (hv : Value.ofJsonText? data = some v) :
    (coerceArguments inputs data "uint64").outcome = .ok (Value.str v.toUint64).jsonText := by
  have hset : SpecSet.ofArgument "uint64" = .ok (.single "uint64") := rfl
  exact outcome_coerceArguments_of_ofJsonText? hset hv (v.outcome_coerce_text (.scalar .uint64))

/-- An integer below `10 ^ 308` comes out clamped into the unsigned range, after it has been rounded
to a multiple of `2048` if it is between `2 ^ 63` and `2 ^ 64`. In a JSON string every unsigned
integer comes out digit for digit, and as a number it does so below `2 ^ 63` and if it is such a
multiple. -/
theorem coerceArguments_uint64_integer :
    (∀ (inputs : Inputs) (n : Int), n.natAbs < 10 ^ 308 →
      (coerceArguments inputs (String.ofList (intText n)) "uint64").outcome =
        .ok (Value.str (String.ofList (uint64Text (Value.unsignedRead n)))).jsonText) ∧
    ∀ (inputs : Inputs) (n : Nat), n < 2 ^ 64 →
      (coerceArguments inputs (Value.str (String.ofList (digits n))).jsonText "uint64").outcome =
          .ok (Value.str (String.ofList (digits n))).jsonText ∧
        (n < 2 ^ 63 ∨ 2048 ∣ n →
          (coerceArguments inputs (String.ofList (digits n)) "uint64").outcome =
            .ok (Value.str (String.ofList (digits n))).jsonText) := by
  have hinteger : ∀ (inputs : Inputs) (n : Int), n.natAbs < 10 ^ 308 →
      (coerceArguments inputs (String.ofList (intText n)) "uint64").outcome =
        .ok (Value.str (String.ofList (uint64Text (Value.unsignedRead n)))).jsonText := by
    intro inputs n h
    obtain ⟨v, hv, htext⟩ := Value.exists_ofJsonText?_intText h
    rw [outcome_coerceArguments_uint64 hv, htext]
  refine ⟨hinteger, fun inputs n h => ⟨?_, fun hexact => ?_⟩⟩
  · have hread : Value.ofJsonText? (Value.str (String.ofList (digits n))).jsonText =
        some (.str (String.ofList (digits n))) := Value.ofJsonText?_jsonText (.str _ _)
    rw [outcome_coerceArguments_uint64 hread, Value.toUint64_str_digits (Nat.le_pred_of_lt h)]
  · have hread : Value.unsignedRead n = n := by
      unfold Value.unsignedRead
      split
      next hrange =>
        have hdvd : 2048 ∣ n := hexact.resolve_left (by omega)
        rw [Int.natAbs_natCast, roundDiv_of_dvd (by decide) (Nat.mod_eq_zero_of_dvd hdvd)]
        omega
      next => rfl
    have hrun := hinteger inputs n (Nat.lt_trans h (by decide +kernel))
    rw [hread, uint64Text_natCast (Nat.le_pred_of_lt h)] at hrun
    exact hrun

theorem coerceArguments_uint64_integer_tie :
    ((9223372036854776832 : Int).natAbs < 10 ^ 308 ∧
      (coerceArguments ⟨.ok .empty, fun _ => .error .notUtf8⟩
          (String.ofList (intText 9223372036854776832)) "uint64").outcome =
        .ok (Value.str "9223372036854775808").jsonText) ∧
    18446744073709549568 < 2 ^ 64 ∧ 2048 ∣ 18446744073709549568 ∧
      (coerceArguments ⟨.ok .empty, fun _ => .error .notUtf8⟩
          (String.ofList (digits 18446744073709549568)) "uint64").outcome =
        .ok (Value.str (String.ofList (digits 18446744073709549568))).jsonText := by
  obtain ⟨hinteger, hexact⟩ := coerceArguments_uint64_integer
  have htie : String.ofList (uint64Text (Value.unsignedRead 9223372036854776832)) =
      "9223372036854775808" := by decide +kernel
  refine ⟨⟨by decide +kernel, ?_⟩, by decide, by decide, ?_⟩
  · rw [← htie]
    exact hinteger _ _ (by decide +kernel)
  · exact (hexact _ _ (by decide)).2 (.inr (by decide))

/-- Not every unsigned integer comes out as it is. -/
theorem coerceArguments_uint64_above_int64 :
    ¬ ∀ (inputs : Inputs) (n : Int), n.natAbs < 10 ^ 308 →
      (coerceArguments inputs (String.ofList (intText n)) "uint64").outcome =
        .ok (Value.str (String.ofList (uint64Text n))).jsonText := by
  intro h
  have hrun := h ⟨.ok .empty, fun _ => .error .notUtf8⟩ 9223372036854775809 (by decide +kernel)
  exact absurd hrun (by decide +kernel)

end LooseTypes
