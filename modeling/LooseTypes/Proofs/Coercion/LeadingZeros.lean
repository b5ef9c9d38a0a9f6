import LooseTypes.Proofs.Uint64
import LooseTypes.Proofs.Coercion.Outcome

/-!
# Leading zeros of an unsigned integer

Before a text is read as an unsigned integer, its leading zeros are taken off. Mostly this changes
nothing: a point, a digit or any other text after them is read as it would be behind a zero. But a
numeral ends before a blank or a sign, and without the zeros the next one leads: then the text counts
by another numeral than the one it begins with (`clampDecimal_withoutZeros_eq_iff`).
-/

namespace LooseTypes

def withoutZeros (text : List Char) : List Char := text.dropWhile (· == '0')

/-- The text begins with a blank or a plus sign, which can stand before a numeral but not within. -/
def StartsApart (text : List Char) : Prop :=
  ∃ c ∈ text.head?, Numeral.isBlank c = true ∨ c = '+'

/-- The text begins with zeros, and behind them, set off by a blank or a plus sign, stands a numeral
that is at least one. -/
structure RereadsAfterZeros (text : List Char) : Prop where
  zero : text.head? = some '0'
  apart : StartsApart (withoutZeros text)
  one_le : 1 ≤ leadingValue (withoutZeros text)

section Text

variable {text : List Char}

/-! ## What follows the zeros -/

theorem StartsApart.exists_cons (h : StartsApart text) :
    ∃ c rest, text = c :: rest ∧ c.isDigit = false ∧ c ≠ '.' := by
  obtain ⟨c, hc, hblank⟩ := h
  obtain ⟨rest, rfl⟩ := List.head?_eq_some_iff.1 hc
  refine ⟨c, rest, rfl, ?_, ?_⟩
  · rcases hblank with hblank | rfl
    · refine Bool.eq_false_iff.2 fun hdigit => ?_
      rw [Numeral.not_isBlank_of_isDigit hdigit] at hblank
      cases hblank
    · rfl
  · rintro rfl
    exact absurd hblank (by decide)

/-- Such a text does not continue a numeral. -/
theorem StartsApart.takeWhile_eq (h : StartsApart text) : text.takeWhile Char.isDigit = [] := by
  obtain ⟨c, rest, rfl, hdigit, -⟩ := h.exists_cons
  exact List.takeWhile_cons_of_neg (by simp [hdigit])

theorem StartsApart.fractionOf_eq (h : StartsApart text) : Numeral.fractionOf text = [] := by
  obtain ⟨c, rest, rfl, -, hpoint⟩ := h.exists_cons
  unfold Numeral.fractionOf
  split
  next he => exact absurd (List.cons.inj he).1 hpoint
  next => rfl

/-- Any other text counts by the digits that it begins with. -/
theorem clampDecimal_of_not_startsApart (h : ¬StartsApart text) :
    clampDecimal text = uint64Text (ofDigits (text.takeWhile Char.isDigit)) := by
  by_cases hminus : text.head? = some '-'
  · obtain ⟨rest, rfl⟩ := List.head?_eq_some_iff.1 hminus
    have hsplit : Numeral.splitSign (('-' :: rest).dropWhile Numeral.isBlank) = (true, rest) := rfl
    rw [clampDecimal_of_split hsplit, if_pos rfl, uint64Text_of_nonpos (by omega),
      List.takeWhile_cons_of_neg (by decide)]
    rfl
  · refine clampDecimal_of_split (Numeral.splitSign_of_unsigned fun c hc => ⟨?_, ?_, ?_⟩)
    · exact Bool.eq_false_iff.2 fun hblank => h ⟨c, hc, .inl hblank⟩
    · exact fun hplus => h ⟨c, hc, .inr hplus⟩
    · rintro rfl
      exact hminus hc

/-! ## Texts that begin with a zero -/

theorem ofDigits_takeWhile_withoutZeros (text : List Char) :
    ofDigits ((withoutZeros text).takeWhile Char.isDigit) =
      ofDigits (text.takeWhile Char.isDigit) := by
  induction text with
  | nil => rfl
  | cons c rest ih =>
    by_cases hc : c = '0'
    · subst hc
      have hdrop : withoutZeros ('0' :: rest) = withoutZeros rest := rfl
      have htake : ('0' :: rest).takeWhile Char.isDigit =
          List.replicate 1 '0' ++ rest.takeWhile Char.isDigit := rfl
      rw [hdrop, ih, htake, ofDigits_zeros_append]
    · rw [withoutZeros, List.dropWhile_cons_of_neg (by simpa using hc)]

theorem dropWhile_isDigit_withoutZeros (text : List Char) :
    (withoutZeros text).dropWhile Char.isDigit = text.dropWhile Char.isDigit := by
  induction text with
  | nil => rfl
  | cons c rest ih =>
    by_cases hc : c = '0'
    · subst hc
      exact ih
    · rw [withoutZeros, List.dropWhile_cons_of_neg (by simpa using hc)]

theorem splitSign_of_zero (h : text.head? = some '0') :
    Numeral.splitSign (text.dropWhile Numeral.isBlank) = (false, text) := by
  refine Numeral.splitSign_of_isDigit fun c hc => ?_
  rw [h] at hc
  cases hc
  rfl

/-- A text that begins with a zero counts by the digits after its zeros. -/
theorem clampDecimal_of_zero (h : text.head? = some '0') :
    clampDecimal text = uint64Text (ofDigits ((withoutZeros text).takeWhile Char.isDigit)) := by
  rw [clampDecimal_of_split (splitSign_of_zero h), ofDigits_takeWhile_withoutZeros]
  rfl

/-- Zeros before a blank or a plus sign are the whole numeral. -/
theorem leadingValue_of_startsApart (h : text.head? = some '0')
    (hapart : StartsApart (withoutZeros text)) : leadingValue text = 0 := by
  have hwhole : (text.takeWhile Char.isDigit).isEmpty = false := by
    obtain ⟨rest, rfl⟩ := List.head?_eq_some_iff.1 h
    rfl
  have hfraction : Numeral.fractionOf (text.dropWhile Char.isDigit) = [] := by
    obtain ⟨c, rest, hrest, hdigit, -⟩ := hapart.exists_cons
    rw [← dropWhile_isDigit_withoutZeros, hrest, List.dropWhile_cons_of_neg (by simp [hdigit]),
      ← hrest, hapart.fractionOf_eq]
  have hvalue : ofDigits (text.takeWhile Char.isDigit) = 0 := by
    rw [← ofDigits_takeWhile_withoutZeros, hapart.takeWhile_eq]
    rfl
  rw [leadingValue, Numeral.scan_of_split (splitSign_of_zero h), hwhole, hfraction]
  simp [Numeral.value, hvalue]

/-- Taking the zeros off matters just if a numeral of at least one follows them, set off. -/
theorem clampDecimal_withoutZeros_eq_iff (text : List Char) :
    clampDecimal (withoutZeros text) = clampDecimal text ↔ ¬RereadsAfterZeros text := by
  by_cases hzero : text.head? = some '0'
  · rw [clampDecimal_of_zero hzero]
    by_cases hapart : StartsApart (withoutZeros text)
    · have hnone : uint64Text (ofDigits []) = ['0'] := rfl
      rw [hapart.takeWhile_eq, hnone, clampDecimal_eq, uint64Text_eq_zero_iff,
        towardZero_nonpos_iff, ← not_le]
      exact not_congr ⟨fun h => ⟨hzero, hapart, h⟩, fun h => h.one_le⟩
    · exact iff_of_true (clampDecimal_of_not_startsApart hapart) fun h => hapart h.apart
  · have hsame : withoutZeros text = text := by
      cases text with
      | nil => rfl
      | cons c rest =>
        refine List.dropWhile_cons_of_neg fun hc => hzero ?_
        rw [beq_iff_eq.1 hc]
        rfl
    rw [hsame]
    exact iff_of_true rfl fun h => hzero h.zero

end Text

/-! ## Coercion -/

theorem Value.outcome_coerce_uint64_str (s : String) :
    ((Value.str s).coerce "uint64").outcome =
      .ok (.str (String.ofList (clampDecimal (withoutZeros (trimmed s.toList))))) :=
  (Value.str s).outcome_coerce_uint64

/-- A text is coerced to the clamped integer part of the leading numeral of the trimmed text, unless
this begins with zeros and a numeral of at least one follows them, set off by a blank or a plus sign.
Then the leading numeral is zero, and that one is read in its place. -/
theorem coerce_uint64_text (s : String) :
    ((((Value.str s).coerce "uint64").outcome =
          .ok (.str (String.ofList (uint64Text (towardZero (leadingValue (trimmed s.toList)))))) ∧
        clampDecimal (withoutZeros (trimmed s.toList)) = clampDecimal (trimmed s.toList)) ↔
      ¬RereadsAfterZeros (trimmed s.toList)) ∧
    (RereadsAfterZeros (trimmed s.toList) →
      leadingValue (trimmed s.toList) = 0 ∧
        ((Value.str s).coerce "uint64").outcome =
          .ok (.str (String.ofList
            (uint64Text (towardZero (leadingValue (withoutZeros (trimmed s.toList)))))))) := by
  have hsame := clampDecimal_withoutZeros_eq_iff (trimmed s.toList)
  rw [Value.outcome_coerce_uint64_str]
  refine ⟨⟨fun h => hsame.1 h.2, fun h => ?_⟩, fun h => ?_⟩
  · rw [hsame.2 h, clampDecimal_eq]
    exact ⟨rfl, rfl⟩
  · exact ⟨leadingValue_of_startsApart h.zero h.apart, by rw [clampDecimal_eq]⟩

theorem coerce_uint64_text_zeros :
    (¬RereadsAfterZeros (trimmed " 007.9 kg".toList) ∧
      ((Value.str " 007.9 kg").coerce "uint64").outcome =
          .ok (.str (String.ofList
            (uint64Text (towardZero (leadingValue (trimmed " 007.9 kg".toList)))))) ∧
        clampDecimal (withoutZeros (trimmed " 007.9 kg".toList)) =
          clampDecimal (trimmed " 007.9 kg".toList)) ∧
    RereadsAfterZeros (trimmed "0 5".toList) ∧
      leadingValue (trimmed "0 5".toList) = 0 ∧
        ((Value.str "0 5").coerce "uint64").outcome =
          .ok (.str (String.ofList
            (uint64Text (towardZero (leadingValue (withoutZeros (trimmed "0 5".toList))))))) := by
  have hkept : ¬RereadsAfterZeros (trimmed " 007.9 kg".toList) := by
    rintro ⟨-, ⟨c, hc, hblank⟩, -⟩
    cases hc
    exact absurd hblank (by decide)
  have hreread : RereadsAfterZeros (trimmed "0 5".toList) := by
    refine ⟨rfl, ⟨' ', rfl, .inl rfl⟩, ?_⟩
    have hscan : Numeral.scan (withoutZeros (trimmed "0 5".toList)) = some ⟨false, ['5'], []⟩ := rfl
    have hfive : ofDigits ['5'] = 5 := rfl
    rw [leadingValue, hscan]
    simp [Numeral.value, hfive]
  exact ⟨⟨hkept, (coerce_uint64_text " 007.9 kg").1.2 hkept⟩, hreread,
    (coerce_uint64_text "0 5").2 hreread⟩

/-- Not every text counts by its leading numeral: here this is zero, and the other one is read. -/
theorem coerce_uint64_zero_before_numeral :
    ¬ ∀ s : String,
      ((Value.str s).coerce "uint64").outcome =
          .ok (.str (String.ofList (uint64Text (towardZero (leadingValue (trimmed s.toList)))))) ∧
        clampDecimal (withoutZeros (trimmed s.toList)) = clampDecimal (trimmed s.toList) := by
  intro h
  exact absurd (h "0 5").2 (by decide)

end LooseTypes
