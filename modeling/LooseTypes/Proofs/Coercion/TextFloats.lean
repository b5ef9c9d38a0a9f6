import LooseTypes.Json.Number
import LooseTypes.Proofs.Numeral.Grammar
import LooseTypes.Proofs.Binary64.Rounded
import LooseTypes.Proofs.Binary64.Text
import LooseTypes.Proofs.Coercion.Outcome

/-!
# Texts as floating-point numbers

A text is coerced to a number by the plain text of its leading numeral, with digits on both sides of
the point (`Numeral.padded`). This is in the grammar of decimal texts that numbers are read from
(`Binary64.ofText?`), so there is always a number, the one nearest to the numeral's value, with the
sign of the numeral (`coerce_float_text`). Only the sign and the value matter
(`Numeral.toBinary64_congr`), so a text can be respelled (`Respelled`) without a change.
-/

namespace LooseTypes

/-! ## Reading a decimal text -/

namespace Binary64

/-- What follows a point and the digits behind it. -/
def afterFraction : List Char → List Char
  | '.' :: cs => cs.dropWhile Char.isDigit
  | cs => cs

/-- The number nearest to what digits with at most one point and an exponent denote. -/
def ofNumber? (negative : Bool) (body : List Char) : Option Binary64 :=
  let whole := body.takeWhile Char.isDigit
  let fraction := Numeral.fractionOf (body.dropWhile Char.isDigit)
  if whole.isEmpty && fraction.isEmpty then none
  else
    (Json.exponent? (afterFraction (body.dropWhile Char.isDigit))).map fun exponent =>
      ofDecimal negative ⟨ofDigits (whole ++ fraction), exponent.getD 0 - fraction.length⟩

/-- The number that a text is: after a sign an infinity or NaN by its name in letters of either
case, or else a decimal number. -/
def ofText? (text : List Char) : Option Binary64 :=
  let (negative, body) := Numeral.splitSign text
  let name := body.map Char.toLower
  if name = "inf".toList ∨ name = "infinity".toList then some (.infinite negative)
  else if name = "nan".toList then some .nan
  else ofNumber? negative body

end Binary64

namespace Numeral

variable {m n : Numeral}

theorem toLower_ne_of_isDigit {c : Char} (h : c.isDigit = true) :
    c.toLower ≠ 'i' ∧ c.toLower ≠ 'n' := by
  obtain ⟨d, hd, rfl⟩ := exists_digitChar_eq h
  revert d
  decide

/-- A plain text is read to its end. -/
theorem ofText?_text (h : n.IsPlain) : Binary64.ofText? n.text = some n.toBinary64 := by
  have hsplit := splitSign_text h
  obtain ⟨negative, whole, fraction⟩ := n
  obtain ⟨hne, hne', hwhole, hfraction⟩ := h
  have hread : fractionOf ('.' :: fraction) = fraction := List.takeWhile_eq_self_iff.2 hfraction
  have hend : Binary64.afterFraction ('.' :: fraction) = [] := List.dropWhile_eq_nil_iff.2 hfraction
  have hnumber : Binary64.ofNumber? negative (whole ++ '.' :: fraction) =
      some (toBinary64 ⟨negative, whole, fraction⟩) := by
    unfold Binary64.ofNumber?
    rw [takeWhile_point hwhole, dropWhile_point hwhole, hread, hend, if_neg (by simp [hne])]
    exact congrArg (fun e => some (Binary64.ofDecimal negative ⟨ofDigits (whole ++ fraction), e⟩))
      (Int.zero_sub _)
  unfold Binary64.ofText?
  rw [hsplit]
  -- it begins with a digit, and no name does
  cases whole with
  | nil => exact absurd rfl hne
  | cons c rest =>
    obtain ⟨hi, hn⟩ := toLower_ne_of_isDigit (hwhole c List.mem_cons_self)
    simp only [List.cons_append, List.map_cons]
    rw [if_neg (by simp [hi]), if_neg (by simp [hn])]
    exact hnumber

/-- Only the sign and the value matter. -/
theorem toBinary64_congr (hsign : m.negative = n.negative) (hvalue : m.value = n.value) :
    m.toBinary64 = n.toBinary64 := by
  have hpos : ∀ k : ℕ, 0 < 10 ^ k := fun k => Nat.pow_pos (by decide)
  have hfactor : (if n.negative then -1 else 1 : ℚ) ≠ 0 := by
    split <;> norm_num
  rw [value, value, hsign] at hvalue
  have hratio := mul_left_cancel₀ hfactor hvalue
  rw [div_eq_div_iff (by exact_mod_cast Nat.ne_of_gt (hpos _))
    (by exact_mod_cast Nat.ne_of_gt (hpos _))] at hratio
  rw [toBinary64_eq_ofRatio, toBinary64_eq_ofRatio, hsign]
  exact Binary64.ofRatio_congr (hpos _) (hpos _) (by exact_mod_cast hratio)

theorem isNegative_toBinary64 (n : Numeral) : n.toBinary64.isNegative = n.negative := by
  rw [toBinary64_eq_ofRatio, Binary64.ofRatio, Binary64.isNegative_ofRank]

theorem isNearest_toBinary64 (n : Numeral) : Binary64.IsNearest n.value n.toBinary64 := by
  rw [toBinary64_eq_ofRatio, value]
  exact Binary64.isNearest_ofRatio n.negative (Nat.pow_pos (by decide))

/-! ## Other spellings -/

/-- A text whose numeral is spelled otherwise: with zeros before the digits or behind a fraction, or
with something else behind it that does not continue it. -/
inductive Respelled : List Char → List Char → Prop where
  | leadingZeros {front sign unsigned whole fraction rest : List Char} {negative : Bool} (k : ℕ) :
    (∀ c ∈ front, c ∈ blanks) → Sign sign negative → Unsigned unsigned whole fraction →
    Respelled (front ++ (sign ++ (unsigned ++ rest)))
      (front ++ (sign ++ (List.replicate k '0' ++ (unsigned ++ rest))))
  | trailingZeros {front sign whole fraction rest : List Char} {negative : Bool} (k : ℕ) :
    (∀ c ∈ front, c ∈ blanks) → Sign sign negative →
    Unsigned (whole ++ '.' :: fraction) whole fraction → (∀ c ∈ rest.head?, c.isDigit = false) →
    Respelled (front ++ (sign ++ (whole ++ '.' :: (fraction ++ rest))))
      (front ++ (sign ++ (whole ++ '.' :: (fraction ++ (List.replicate k '0' ++ rest)))))
  | suffix {front p rest rest' : List Char} {n : Numeral} :
    (∀ c ∈ front, c ∈ blanks) → LongestPrefix (p ++ rest) p n → Stops rest' →
    Respelled (front ++ (p ++ rest)) (front ++ (p ++ rest'))

section Respelled

variable {front sign unsigned whole fraction rest : List Char} {negative : Bool}

theorem areDigits_zeros_append (k : ℕ) {ds : List Char} (h : AreDigits ds) :
    AreDigits (List.replicate k '0' ++ ds) :=
  ⟨by simp [h.1], List.forall_mem_append.2 ⟨isDigit_of_mem_replicate, h.2⟩⟩

theorem Unsigned.zeros_append (h : Unsigned unsigned whole fraction) (k : ℕ) :
    Unsigned (List.replicate k '0' ++ unsigned) (List.replicate k '0' ++ whole) fraction := by
  cases h with
  | whole hds => exact .whole (areDigits_zeros_append k hds)
  | point hds =>
    rw [← List.append_assoc]
    exact .point (areDigits_zeros_append k hds)
  | both hds hfs =>
    rw [← List.append_assoc]
    exact .both (areDigits_zeros_append k hds) hfs
  | fraction hfs =>
    cases k with
    | zero => exact .fraction hfs
    | succ k =>
      rw [List.append_nil]
      exact .both ⟨by simp, isDigit_of_mem_replicate⟩ hfs

theorem value_zeros_append (negative : Bool) (whole fraction : List Char) (k : ℕ) :
    value ⟨negative, List.replicate k '0' ++ whole, fraction⟩ =
      value ⟨negative, whole, fraction⟩ := by
  rw [value, value, List.append_assoc, ofDigits_zeros_append]

theorem value_append_zeros (negative : Bool) (whole fraction : List Char) (k : ℕ) :
    value ⟨negative, whole, fraction ++ List.replicate k '0'⟩ =
      value ⟨negative, whole, fraction⟩ := by
  have hpos : ((10 ^ k : ℕ) : ℚ) ≠ 0 := by exact_mod_cast Nat.ne_of_gt (Nat.pow_pos (by decide))
  rw [value, value, ← List.append_assoc, ofDigits_append_zeros, List.length_append,
    List.length_replicate, Nat.pow_add, Nat.cast_mul, Nat.cast_mul, mul_div_mul_right _ _ hpos]

/-- A numeral with a point is read as far as the digits of its fraction go. -/
theorem scan_pointed (hfront : ∀ c ∈ front, c ∈ blanks) (hsign : Sign sign negative)
    (hwhole : ∀ c ∈ whole, c.isDigit = true) (hfraction : ∀ c ∈ fraction, c.isDigit = true)
    (hparts : (whole.isEmpty && fraction.isEmpty) = false)
    (hrest : ∀ c ∈ rest.head?, c.isDigit = false) :
    scan (front ++ (sign ++ (whole ++ '.' :: (fraction ++ rest)))) =
      some ⟨negative, whole, fraction⟩ := by
  have hscan := scan_of_unsigned hfront hsign (unsigned_pointed hwhole hfraction hparts) rest
  rw [List.append_assoc, List.cons_append, takeWhile_point hwhole, dropWhile_point hwhole] at hscan
  have hread : fractionOf ('.' :: (fraction ++ rest)) = fraction :=
    takeWhile_append_of_head hfraction hrest
  rw [hscan, hread]

/-- Another spelling has a numeral of the same sign and value. -/
theorem Respelled.exists_scan {text text' : List Char} (h : Respelled text text') :
    ∃ m n, scan text = some m ∧ scan text' = some n ∧ n.negative = m.negative ∧
      n.value = m.value := by
  cases h with
  | @leadingZeros front sign unsigned whole fraction rest negative k hfront hsign hunsigned =>
    have hzeros := @isDigit_of_mem_replicate k
    have hscan := scan_of_unsigned hfront hsign (hunsigned.zeros_append k) rest
    rw [List.append_assoc, List.takeWhile_append_of_pos hzeros,
      List.dropWhile_append_of_pos hzeros] at hscan
    exact ⟨_, _, scan_of_unsigned hfront hsign hunsigned rest, hscan, rfl,
      value_zeros_append _ _ _ k⟩
  | @trailingZeros front sign whole fraction rest negative k hfront hsign hunsigned hrest =>
    have hfraction : ∀ c ∈ fraction ++ List.replicate k '0', c.isDigit = true :=
      List.forall_mem_append.2 ⟨hunsigned.isDigit_fraction, isDigit_of_mem_replicate⟩
    have hparts := hunsigned.parts_ne_nil
    have hparts' : (whole.isEmpty && (fraction ++ List.replicate k '0').isEmpty) = false := by
      rw [Bool.and_eq_false_iff, List.isEmpty_eq_false_iff, List.isEmpty_eq_false_iff] at hparts ⊢
      exact hparts.imp_right fun hne => List.append_ne_nil_of_left_ne_nil hne _
    have hscan := scan_pointed hfront hsign hunsigned.isDigit_whole hfraction hparts' hrest
    rw [List.append_assoc] at hscan
    exact ⟨_, _, scan_pointed hfront hsign hunsigned.isDigit_whole hunsigned.isDigit_fraction
      hparts hrest, hscan, rfl, value_append_zeros _ _ _ k⟩
  | @suffix front p rest rest' n hfront hp hrest =>
    have hleads : Leads (front ++ (p ++ rest)) n :=
      ⟨p, by rwa [hp.written.withoutBlanks_append hfront]⟩
    exact ⟨n, n, scan_eq_some_iff.2 hleads, hp.written.scan_append hfront hrest, rfl, rfl⟩

end Respelled

end Numeral

/-! ## Coercion -/

section Coercion

open Numeral

theorem Value.outcome_coerce_float_str {s : String} {n : Numeral} (h : scan s.toList = some n) :
    ((Value.str s).coerce "float").outcome = .ok (.float n.toBinary64) := by
  rw [Value.outcome_coerce_float, Value.toBinary64, h]
  rfl

/-- A numeral is on the side of zero that its sign says. -/
theorem Numeral.signed_value_nonneg (n : Numeral) :
    0 ≤ (if n.negative then -1 else 1) * n.value := by
  rw [value, ← mul_assoc]
  have hsquare : (if n.negative then -1 else 1 : ℚ) * (if n.negative then -1 else 1) = 1 := by
    split <;> norm_num
  rw [hsquare, one_mul]
  positivity

/-- A text without a leading numeral becomes zero. Any other one becomes the number that is nearest to
the value of its leading numeral, ties to even, and has its sign; there is one such number. It is
infinite from half the way on between the largest finite number and the next place. The plain text of
the numeral is always read, as this number. Other spellings of the numeral and what follows it change
nothing. -/
theorem coerce_float_text (s : String) :
    ((∀ n, ¬Leads s.toList n) →
        ((Value.str s).coerce "float").outcome = .ok (.float (.zero false))) ∧
      (∀ n, Leads s.toList n →
        ∃ x : Binary64, ((Value.str s).coerce "float").outcome = .ok (.float x) ∧
          x.IsNearest n.value ∧ x.isNegative = n.negative ∧
          (∀ y : Binary64, y.IsNearest n.value → y.isNegative = n.negative → y = x) ∧
          (n.value = 0 → x = .zero n.negative) ∧
          (x = .infinite n.negative ↔ ((2 ^ 1024 - 2 ^ 970 : ℕ) : ℚ) ≤ |n.value|) ∧
          Binary64.ofText? n.padded.text = some x) ∧
      ∀ t, Respelled s.toList t.toList →
        ((Value.str t).coerce "float").outcome = ((Value.str s).coerce "float").outcome := by
  refine ⟨fun hnone => ?_, fun n hn => ?_, fun t ht => ?_⟩
  · rw [Value.outcome_coerce_float, Value.toBinary64, scan_eq_none_iff.2 hnone]
    rfl
  · have hscan := scan_eq_some_iff.2 hn
    have hnearest := n.isNearest_toBinary64
    have hnegative := n.isNegative_toBinary64
    refine ⟨n.toBinary64, Value.outcome_coerce_float_str hscan, hnearest, hnegative, ?_, ?_, ?_, ?_⟩
    · intro y hy hsign
      exact hy.unique hnearest (by rw [hsign, hnegative])
    · intro hzero
      have hnearest' := Binary64.isNearest_zero n.negative
      rw [← hzero] at hnearest'
      exact hnearest.unique hnearest' hnegative
    · have hinfinite := hnearest.eq_infinite_iff (by rw [hnegative]; exact n.signed_value_nonneg)
      rwa [hnegative] at hinfinite
    · have hpadded : n.padded.toBinary64 = n.toBinary64 := toBinary64_congr rfl (value_padded n)
      rw [ofText?_text (isPlain_padded hscan), hpadded]
  · obtain ⟨m, n, hm, hn, hsign, hvalue⟩ := ht.exists_scan
    rw [Value.outcome_coerce_float_str hm, Value.outcome_coerce_float_str hn,
      toBinary64_congr hsign hvalue]

theorem coerce_float_text_zeros :
    ((Value.str "abc").coerce "float").outcome = .ok (.float (.zero false)) ∧
      ((Value.str "-.0").coerce "float").outcome = .ok (.float (.zero true)) ∧
      ((Value.str "-00.0").coerce "float").outcome = .ok (.float (.zero true)) := by
  have hnone : ∀ n, ¬Leads "abc".toList n := scan_eq_none_iff.1 (by decide)
  have hleads : Leads "-.0".toList ⟨true, [], ['0']⟩ := scan_eq_some_iff.1 (by decide)
  have hvalue : (⟨true, [], ['0']⟩ : Numeral).value = 0 := by
    have hzero : ofDigits ([] ++ ['0']) = 0 := rfl
    rw [Numeral.value, hzero, Nat.cast_zero, zero_div, mul_zero]
  have hrespelled : Respelled "-.0".toList "-00.0".toList := by
    have hblanks : ∀ c ∈ ([] : List Char), c ∈ blanks := by simp
    exact @Respelled.leadingZeros [] ['-'] ['.', '0'] [] ['0'] [] true 2 hblanks .minus
      (.fraction ⟨by simp, by simp⟩)
  obtain ⟨x, hx, -, -, -, hzero, -⟩ := (coerce_float_text "-.0").2.1 _ hleads
  rw [hzero hvalue] at hx
  exact ⟨(coerce_float_text "abc").1 hnone, hx,
    ((coerce_float_text "-.0").2.2 "-00.0" hrespelled).trans hx⟩

end Coercion

end LooseTypes
