import LooseTypes.Numeral
import LooseTypes.Proofs.Decimal
import Mathlib.Data.List.TakeWhile
import Mathlib.Data.Rat.Floor

/-!
# Leading numerals

A text is read by its digits after the blanks and the sign (`Numeral.scan_of_split`); digits after a
sign are read as they stand (`Numeral.scan_whole`). A numeral denotes a fraction, its digits over a
power of ten (`Numeral.value`), and what is read as its whole part is the integer part of that
fraction, toward zero, however many digits there are (`Numeral.truncate_eq`). `Numeral.Shows` relates
a numeral to the decimal number whose digits it has.
-/

namespace LooseTypes

/-! ## The integer part -/

/-- The integer part of a fraction, toward zero. -/
def towardZero (q : ℚ) : ℤ := if 0 ≤ q then ⌊q⌋ else ⌈q⌉

theorem towardZero_zero : towardZero 0 = 0 := by simp [towardZero]

theorem towardZero_neg (q : ℚ) : towardZero (-q) = -towardZero q := by
  unfold towardZero
  rcases lt_trichotomy q 0 with h | rfl | h
  · rw [if_pos (by linarith), if_neg (by linarith), Int.floor_neg]
  · simp
  · rw [if_neg (by linarith), if_pos (le_of_lt h), Int.ceil_neg]

theorem towardZero_natCast_div (n d : ℕ) : towardZero (n / d) = (n / d : ℕ) := by
  rw [towardZero, if_pos (by positivity), Rat.floor_natCast_div_natCast]
  rfl

theorem towardZero_intCast (n : ℤ) : towardZero n = n := by
  unfold towardZero
  split
  · exact Int.floor_intCast n
  · exact Int.ceil_intCast n

theorem towardZero_intCast_div (n : ℤ) (d : ℕ) : towardZero (n / d) = n.tdiv d := by
  rcases Int.eq_nat_or_neg n with ⟨m, rfl | rfl⟩
  · rw [Int.cast_natCast, towardZero_natCast_div, ← Int.ofNat_tdiv]
  · rw [Int.cast_neg, neg_div, towardZero_neg, Int.neg_tdiv, Int.cast_natCast,
      towardZero_natCast_div, ← Int.ofNat_tdiv]

theorem towardZero_mono {p q : ℚ} (h : p ≤ q) : towardZero p ≤ towardZero q := by
  unfold towardZero
  split
  next hp =>
    rw [if_pos (le_trans hp h)]
    exact Int.floor_le_floor h
  next hp =>
    split
    next hq =>
      -- zero is between the two
      have hceil : ⌈p⌉ ≤ 0 := Int.ceil_le.2 (by push_cast; linarith)
      have hfloor : 0 ≤ ⌊q⌋ := Int.floor_nonneg.2 hq
      omega
    next => exact Int.ceil_le_ceil h

theorem towardZero_nonpos_iff {q : ℚ} : towardZero q ≤ 0 ↔ q < 1 := by
  unfold towardZero
  split
  · rw [← Int.lt_add_one_iff, Int.floor_lt]
    norm_num
  · rw [Int.ceil_le]
    constructor
    · intro h
      linarith
    · intro h
      push_cast
      linarith

/-- In the signed 64-bit range clamping and wrapping around are the same. -/
theorem ofIntClamp_eq_ofInt {n : Int} (hlow : -2 ^ 63 ≤ n) (hhigh : n < 2 ^ 63) :
    Int64.ofIntClamp n = Int64.ofInt n := by
  have hn := Int64.toInt_ofInt_of_le hlow hhigh
  have hclamp := Int64.ofIntClamp_toInt (Int64.ofInt n)
  rwa [hn] at hclamp

namespace Numeral

/-! ## Reading a text -/

theorem not_isBlank_of_isDigit {c : Char} (h : c.isDigit = true) : isBlank c = false := by
  refine Bool.eq_false_iff.2 fun hb => ?_
  simp only [isBlank, Bool.or_eq_true, beq_iff_eq] at hb
  rcases hb with ((((rfl | rfl) | rfl) | rfl) | rfl) | rfl <;> exact absurd h (by decide)

section Scan

variable {text body rest : List Char} {negative : Bool}

/-- A text is read by its digits after the blanks and the sign. -/
theorem scan_of_split (h : splitSign (text.dropWhile isBlank) = (negative, body)) :
    scan text =
      if (body.takeWhile Char.isDigit).isEmpty &&
          (fractionOf (body.dropWhile Char.isDigit)).isEmpty then none
      else some ⟨negative, body.takeWhile Char.isDigit, fractionOf (body.dropWhile Char.isDigit)⟩ := by
  simp only [scan, h]

theorem splitSign_eq_self (h : ∀ c ∈ text.head?, c ≠ '+' ∧ c ≠ '-') :
    splitSign text = (false, text) := by
  unfold splitSign
  split
  next => exact absurd rfl (h _ rfl).1
  next => exact absurd rfl (h _ rfl).2
  next => rfl

theorem splitSign_of_unsigned (h : ∀ c ∈ text.head?, isBlank c = false ∧ c ≠ '+' ∧ c ≠ '-') :
    splitSign (text.dropWhile isBlank) = (false, text) := by
  have hdrop : text.dropWhile isBlank = text := by
    cases text with
    | nil => rfl
    | cons c rest => exact List.dropWhile_cons_of_neg (by simp [(h c rfl).1])
  rw [hdrop, splitSign_eq_self fun c hc => (h c hc).2]

theorem ne_sign_of_isDigit {c : Char} (h : c.isDigit = true) : c ≠ '+' ∧ c ≠ '-' := by
  constructor <;> (rintro rfl; exact absurd h (by decide))

theorem splitSign_of_isDigit (h : ∀ c ∈ text.head?, c.isDigit = true) :
    splitSign (text.dropWhile isBlank) = (false, text) := by
  exact splitSign_of_unsigned fun c hc =>
    ⟨not_isBlank_of_isDigit (h c hc), ne_sign_of_isDigit (h c hc)⟩

theorem isDigit_point : ∀ c ∈ ('.' :: rest).head?, c.isDigit = false := by
  rintro c ⟨⟩
  rfl

theorem takeWhile_point {ds : List Char} (h : ∀ c ∈ ds, c.isDigit = true) :
    (ds ++ '.' :: rest).takeWhile Char.isDigit = ds :=
  takeWhile_append_of_head h isDigit_point

theorem dropWhile_point {ds : List Char} (h : ∀ c ∈ ds, c.isDigit = true) :
    (ds ++ '.' :: rest).dropWhile Char.isDigit = '.' :: rest :=
  dropWhile_append_of_head h isDigit_point

/-- A numeral after its sign: the whole part is as long as the digits go. -/
theorem scan_whole {whole : List Char} (negative : Bool) (hne : whole ≠ [])
    (hwhole : ∀ c ∈ whole, c.isDigit = true) (h : ∀ c ∈ rest.head?, c.isDigit = false) :
    scan (if negative then '-' :: (whole ++ rest) else whole ++ rest) =
      some ⟨negative, whole, fractionOf rest⟩ := by
  have hsplit : splitSign
      ((if negative then '-' :: (whole ++ rest) else whole ++ rest).dropWhile isBlank) =
        (negative, whole ++ rest) := by
    cases negative with
    | true => rfl
    | false =>
      refine splitSign_of_isDigit fun c hc => hwhole c (List.mem_of_head? ?_)
      rwa [if_neg Bool.false_ne_true, List.head?_append_of_ne_nil _ hne] at hc
  rw [scan_of_split hsplit, takeWhile_append_of_head hwhole h, dropWhile_append_of_head hwhole h]
  simp [hne]

theorem scan_signed (n : Nat) (negative : Bool) (h : ∀ c ∈ rest.head?, c.isDigit = false) :
    scan (if negative then '-' :: (digits n ++ rest) else digits n ++ rest) =
      some ⟨negative, digits n, fractionOf rest⟩ :=
  scan_whole negative (digits_ne_nil n) (fun _ => isDigit_of_mem_digits) h

theorem scan_intText (n : Int) :
    scan (intText n) = some ⟨decide (n < 0), digits n.natAbs, []⟩ := by
  have hscan := @scan_signed [] n.natAbs (decide (n < 0)) (by simp)
  simp only [List.append_nil, decide_eq_true_eq] at hscan
  exact hscan

end Scan

/-! ## The value -/

/-- The fraction that a numeral denotes. -/
def value (n : Numeral) : ℚ :=
  (if n.negative then -1 else 1) *
    (ofDigits (n.whole ++ n.fraction) / (10 ^ n.fraction.length : ℕ))

theorem isDigit_of_mem_fractionOf {text : List Char} : ∀ c ∈ fractionOf text, c.isDigit = true := by
  intro c hc
  unfold fractionOf at hc
  split at hc
  · exact List.mem_takeWhile_imp hc
  · cases hc

theorem isDigit_of_scan {text : List Char} {n : Numeral} (h : scan text = some n) :
    (∀ c ∈ n.whole, c.isDigit = true) ∧ ∀ c ∈ n.fraction, c.isDigit = true := by
  unfold scan at h
  simp only at h
  split at h
  · cases h
  · cases h
    exact ⟨fun c hc => List.mem_takeWhile_imp hc, isDigit_of_mem_fractionOf⟩

theorem truncate_eq {n : Numeral} (h : ∀ c ∈ n.fraction, c.isDigit = true) :
    n.truncate = towardZero n.value := by
  have hwhole : towardZero (ofDigits (n.whole ++ n.fraction) / (10 ^ n.fraction.length : ℕ)) =
      ofDigits n.whole := by
    rw [towardZero_natCast_div, ofDigits_append_div n.whole h]
  unfold truncate value
  cases n.negative with
  | false => rw [if_neg Bool.false_ne_true, if_neg Bool.false_ne_true, one_mul, hwhole]
  | true => rw [if_pos rfl, if_pos rfl, neg_one_mul, towardZero_neg, hwhole]

/-! ## The digits of a decimal number -/

/-- The numeral has the digits of a decimal number, with those of its fraction behind the point. -/
structure Shows (n : Numeral) (d : Decimal) : Prop where
  whole_ne_nil : n.whole ≠ []
  isDigit_whole : ∀ c ∈ n.whole, c.isDigit = true
  isDigit_fraction : ∀ c ∈ n.fraction, c.isDigit = true
  ofDigits_eq : ofDigits (n.whole ++ n.fraction) = d.num
  length_fraction : n.fraction.length = (-d.exponent).toNat

section Shows

variable {n : Numeral} {d : Decimal} (negative : Bool)

theorem Shows.ofDigits_whole (h : n.Shows d) : ofDigits n.whole = d.num / d.den := by
  rw [← ofDigits_append_div n.whole h.isDigit_fraction, h.ofDigits_eq, h.length_fraction,
    Decimal.den_eq]

theorem shows_whole (h : 0 ≤ d.exponent) :
    Shows ⟨negative, digits d.coefficient ++ List.replicate d.exponent.toNat '0', []⟩ d where
  whole_ne_nil := by simp [digits_ne_nil]
  isDigit_whole :=
    List.forall_mem_append.2 ⟨fun _ => isDigit_of_mem_digits, isDigit_of_mem_replicate⟩
  isDigit_fraction := by simp
  ofDigits_eq := by rw [List.append_nil, ofDigits_append_zeros, ofDigits_digits, Decimal.num_eq]
  length_fraction := by
    show 0 = (-d.exponent).toNat
    omega

/-- A point within the digits. -/
theorem shows_pointed {k : Nat} (hk : k + 1 < (digits d.coefficient).length)
    (h : d.exponent = k + 1 - (digits d.coefficient).length) :
    Shows ⟨negative, (digits d.coefficient).take (k + 1), (digits d.coefficient).drop (k + 1)⟩ d where
  whole_ne_nil := by
    show (digits d.coefficient).take (k + 1) ≠ []
    rw [← List.length_pos_iff, List.length_take]
    omega
  isDigit_whole c hc := isDigit_of_mem_digits (List.mem_of_mem_take hc)
  isDigit_fraction c hc := isDigit_of_mem_digits (List.mem_of_mem_drop hc)
  ofDigits_eq := by rw [List.take_append_drop, ofDigits_digits, Decimal.num_of_neg (by omega)]
  length_fraction := by
    show ((digits d.coefficient).drop (k + 1)).length = (-d.exponent).toNat
    rw [List.length_drop]
    omega

/-- A point before the digits. -/
theorem shows_fraction {k : Nat} (h : d.exponent = -(k + (digits d.coefficient).length)) :
    Shows ⟨negative, ['0'], List.replicate k '0' ++ digits d.coefficient⟩ d where
  whole_ne_nil := List.cons_ne_nil _ _
  isDigit_whole := List.forall_mem_singleton.2 rfl
  isDigit_fraction :=
    List.forall_mem_append.2 ⟨isDigit_of_mem_replicate, fun _ => isDigit_of_mem_digits⟩
  ofDigits_eq := by
    have hlength := length_digits_pos d.coefficient
    rw [List.singleton_append, ← List.cons_append, ← List.replicate_succ, ofDigits_zeros_append,
      ofDigits_digits, Decimal.num_of_neg (by omega)]
  length_fraction := by
    show (List.replicate k '0' ++ digits d.coefficient).length = (-d.exponent).toNat
    rw [List.length_append, List.length_replicate]
    omega

end Shows

/-! ## The plain text -/

/-- There are digits on both sides of the point. -/
structure IsPlain (n : Numeral) : Prop where
  whole_ne_nil : n.whole ≠ []
  fraction_ne_nil : n.fraction ≠ []
  isDigit_whole : ∀ c ∈ n.whole, c.isDigit = true
  isDigit_fraction : ∀ c ∈ n.fraction, c.isDigit = true

/-- The numeral with a zero in place of a part that is missing. -/
def padded (n : Numeral) : Numeral where
  negative := n.negative
  whole := if n.whole.isEmpty then ['0'] else n.whole
  fraction := if n.fraction.isEmpty then ['0'] else n.fraction

/-- The numeral with a minus sign if it is negative, and with a point. -/
def text (n : Numeral) : List Char :=
  if n.negative then '-' :: (n.whole ++ '.' :: n.fraction) else n.whole ++ '.' :: n.fraction

theorem isPlain_padded {text : List Char} {n : Numeral} (h : scan text = some n) :
    n.padded.IsPlain := by
  obtain ⟨hwhole, hfraction⟩ := isDigit_of_scan h
  have hpad : ∀ {part : List Char}, (∀ c ∈ part, c.isDigit = true) →
      (if part.isEmpty then ['0'] else part) ≠ [] ∧
        ∀ c ∈ if part.isEmpty then ['0'] else part, c.isDigit = true := by
    intro part hpart
    cases part with
    | nil => exact ⟨List.cons_ne_nil _ _, List.forall_mem_singleton.2 rfl⟩
    | cons c rest => exact ⟨List.cons_ne_nil _ _, hpart⟩
  exact ⟨(hpad hwhole).1, (hpad hfraction).1, (hpad hwhole).2, (hpad hfraction).2⟩

theorem splitSign_text {n : Numeral} (h : n.IsPlain) :
    splitSign n.text = (n.negative, n.whole ++ '.' :: n.fraction) := by
  obtain ⟨negative, whole, fraction⟩ := n
  cases negative with
  | true => rfl
  | false =>
    refine splitSign_eq_self fun c hc => ne_sign_of_isDigit (h.isDigit_whole c ?_)
    have hhead : (whole ++ '.' :: fraction).head? = some c := hc
    rw [List.head?_append_of_ne_nil _ h.whole_ne_nil] at hhead
    exact List.mem_of_head? hhead

theorem value_padded (n : Numeral) : n.padded.value = n.value := by
  obtain ⟨negative, whole, fraction⟩ := n
  have hwhole : ∀ rest, ofDigits ((if whole.isEmpty then ['0'] else whole) ++ rest) =
      ofDigits (whole ++ rest) := by
    intro rest
    cases whole with
    | nil => exact ofDigits_zeros_append rest 1
    | cons c whole => rfl
  unfold value padded
  simp only [hwhole]
  cases fraction with
  | nil =>
    have hzero : ofDigits (whole ++ ['0']) = ofDigits whole * 10 ^ 1 := ofDigits_append_zeros whole 1
    simp [hzero]
  | cons c fraction => rfl

end Numeral

/-- The value of the leading numeral of a text; without one it is zero. -/
def leadingValue (text : List Char) : ℚ := ((Numeral.scan text).map Numeral.value).getD 0

end LooseTypes
