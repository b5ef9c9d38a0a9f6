import LooseTypes.Proofs.Binary64.Order

/-!
# The plain text of a number

The plain text of a finite number is one numeral after a sign, which shows the digits of the shortest
decimal (`exists_shows_shortest`). What is read from it is the number again, with the sign of zero
(`scan_text`). Below `2 ^ 53` the text has the whole part of the number too (`toInt64_scan_text`): the
shortest decimal does not reach the next integer.
-/

namespace LooseTypes

/-! ## Reading the text -/

namespace Numeral

/-- The numeral without a point if there is no fraction, and with a minus sign if it is negative. -/
def plainText (n : Numeral) : List Char :=
  if n.negative then '-' :: Layout.pointed n.whole n.fraction
  else Layout.pointed n.whole n.fraction

theorem toBinary64_eq_ofRatio (n : Numeral) :
    n.toBinary64 =
      Binary64.ofRatio n.negative (ofDigits (n.whole ++ n.fraction)) (10 ^ n.fraction.length) := by
  have hexponent : (-(n.fraction.length : Int)).toNat = 0 := Int.toNat_of_nonpos (by omega)
  rw [toBinary64, Binary64.ofDecimal_eq_ofRatio, Decimal.num_eq, Decimal.den_eq, decimal, hexponent,
    Nat.pow_zero, Nat.mul_one, Int.neg_neg, Int.toNat_natCast]

namespace Shows

variable {n : Numeral} {d : Decimal}

/-- The text is read to its end. -/
theorem scan_plainText (h : n.Shows d) : scan n.plainText = some n := by
  obtain ⟨negative, whole, fraction⟩ := n
  cases fraction with
  | nil =>
    have hscan := @scan_whole [] whole negative h.whole_ne_nil h.isDigit_whole (by simp)
    rw [List.append_nil] at hscan
    exact hscan
  | cons c fraction =>
    have hfraction : fractionOf ('.' :: c :: fraction) = c :: fraction :=
      List.takeWhile_eq_self_iff.2 h.isDigit_fraction
    have hpoint := @isDigit_point (c :: fraction)
    have hscan := scan_whole negative h.whole_ne_nil h.isDigit_whole hpoint
    rw [hfraction] at hscan
    exact hscan

theorem toBinary64_eq (h : n.Shows d) : n.toBinary64 = Binary64.ofDecimal n.negative d := by
  rw [toBinary64_eq_ofRatio, h.ofDigits_eq, h.length_fraction, ← Decimal.den_eq,
    Binary64.ofDecimal_eq_ofRatio]

end Shows

/-- In plain layout there is a point only if there is a fraction. -/
theorem exists_shows_magnitude (negative : Bool) (d : Decimal) :
    ∃ n : Numeral, n.negative = negative ∧ n.Shows d ∧
      Layout.plain.magnitude d = Layout.pointed n.whole n.fraction := by
  have hpositional : ∀ e, Layout.plain.isPositional e = true := fun _ => rfl
  have hlength := length_digits_pos d.coefficient
  unfold Layout.magnitude
  dsimp only
  rw [if_pos (hpositional _)]
  split
  next he => exact ⟨_, rfl, shows_whole negative he, List.append_nil _⟩
  next he =>
    split
    next => exact ⟨_, rfl, shows_pointed negative (by omega) (by omega), rfl⟩
    next =>
      refine ⟨_, rfl, shows_fraction negative ?_, by simp [Layout.pointed, digits_ne_nil]; rfl⟩
      omega

end Numeral

namespace Binary64

/-- The text of a finite number is one numeral, which shows the shortest decimal. -/
theorem exists_shows_shortest (negative : Bool) (rank : Nat) :
    ∃ n : Numeral, n.negative = negative ∧ n.Shows (shortest .up rank) ∧
      Layout.plain.finite negative rank = n.plainText := by
  obtain ⟨n, rfl, hshows, htext⟩ := Numeral.exists_shows_magnitude negative (shortest .up rank)
  refine ⟨n, rfl, hshows, ?_⟩
  have htie : Layout.plain.tie = .up := rfl
  simp only [Layout.finite, htie, htext, Numeral.plainText]

/-- The text of a finite number is read to its end, as the number itself. -/
theorem scan_text {x : Binary64} (h : x.isFinite = true) :
    ∃ n : Numeral, x.text.toList = n.plainText ∧ Numeral.scan x.text.toList = some n ∧
      n.toBinary64 = x := by
  cases x with
  | nan => cases h
  | infinite negative => cases h
  | finite negative rank =>
    obtain ⟨n, rfl, hshows, htext⟩ := exists_shows_shortest negative rank
    rw [text, String.toList_ofList, htext]
    refine ⟨n, rfl, hshows.scan_plainText, ?_⟩
    rw [hshows.toBinary64_eq, ofDecimal_shortest]

/-! ## The whole part of the text -/

/-- The shortest decimal is no farther than the next integer, where all integers are magnitudes. -/
theorem num_div_den_shortest {tie : Tie} {rank : Fin rankLimit}
    (h : units rank < 2 ^ 53 * unitsPerOne) :
    (shortest tie rank).num / (shortest tie rank).den = units rank / unitsPerOne := by
  by_cases hdvd : unitsPerOne ∣ units rank
  · -- an integer is its own shortest decimal
    obtain ⟨n, hn⟩ := hdvd
    rw [Nat.mul_comm] at hn
    rw [hn] at h
    have hle : n ≤ 2 ^ 53 := Nat.le_of_lt (Nat.lt_of_mul_lt_mul_right h)
    obtain ⟨hexponent, hnum⟩ := @num_shortest n rank tie hn hle
    rw [hnum, Decimal.den_of_nonneg hexponent, Nat.div_one, hn, Nat.mul_div_cancel _ unitsPerOne_pos]
  · have hrank : rank.val ≠ 0 := by
      intro hzero
      rw [units_eq_zero_iff.2 hzero] at hdvd
      exact hdvd (Nat.dvd_zero _)
    exact div_eq_of_nearestRank_eq (Decimal.den_pos _)
      (nearestRank_of_readsBack (readsBack_shortest tie hrank)) hdvd

theorem units_lt_of_abs_lt {negative : Bool} {rank : Fin rankLimit} {q : ℚ}
    (h : (finite negative rank).value? = some q) (hq : |q| < 9007199254740992) :
    units rank < 2 ^ 53 * unitsPerOne := by
  have hunits := abs_mul_unitsPerOne h
  have hone := unitsPerOne_pos
  generalize unitsPerOne = one at hone hunits ⊢
  have hlt : (units rank : ℚ) < 9007199254740992 * one := by
    rw [← hunits]
    exact mul_lt_mul_of_pos_right hq (Nat.cast_pos.2 hone)
  exact_mod_cast hlt

/-- A number below `2 ^ 53` in magnitude has the whole part of its text. -/
theorem toInt64_scan_text {x : Binary64} {n : Numeral} {q : ℚ} (h : x.value? = some q)
    (hq : |q| < 9007199254740992) (hscan : Numeral.scan x.text.toList = some n) :
    n.toInt64 = Int64.ofInt x.truncate := by
  cases x with
  | nan => cases h
  | infinite negative => cases h
  | finite negative rank =>
    have hunits := units_lt_of_abs_lt h hq
    have hsmall : (truncate (.finite negative rank)).natAbs < 2 ^ 53 := by
      rw [natAbs_truncate]
      exact (Nat.div_lt_iff_lt_mul unitsPerOne_pos).2 hunits
    obtain ⟨m, hnegative, hshows, htext⟩ := exists_shows_shortest negative rank
    rw [text, String.toList_ofList, htext, hshows.scan_plainText] at hscan
    cases hscan
    have htruncate : n.truncate = truncate (.finite negative rank) := by
      have hwhole := hshows.ofDigits_whole
      rw [num_div_den_shortest hunits] at hwhole
      unfold Numeral.truncate truncate
      rw [hwhole, hnegative]
      cases negative with
      | false => exact if_neg Bool.false_ne_true
      | true => exact if_pos rfl
    rw [Numeral.toInt64, htruncate, ofIntClamp_eq_ofInt (by omega) (by omega)]

end Binary64

end LooseTypes
