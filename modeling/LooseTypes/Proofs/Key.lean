import LooseTypes.Key
import LooseTypes.Proofs.Numeral.Scanner

/-!
# Keys by the bytes of a text

A text is the key of an index just if it is the decimal text of a 64-bit integer as it is printed
(`CanonicalDecimal`). That can be told from its bytes: after a minus sign there are digits, without
a zero in front (`Key.isCanonical`). Such a text is read digit by digit in 64 bits, and each step has
to stay in range (`Key.parse?`); as the magnitude never shrinks, this finds out texts of integers
beyond the range (`Key.foldlM_accumulate?`). Both together give the key of every text
(`Key.ofBytes_eq_ofText`).
-/

namespace LooseTypes

/-! ## Canonical decimals -/

/-- The text is the integer `n` as it is printed: no sign but a minus sign, and no leading zeros. -/
inductive CanonicalDecimal : List Char → Int → Prop where
  | zero : CanonicalDecimal ['0'] 0
  | positive {c : Char} {ds : List Char} : c ≠ '0' → (∀ d ∈ c :: ds, d.isDigit = true) →
    CanonicalDecimal (c :: ds) (ofDigits (c :: ds))
  | negative {c : Char} {ds : List Char} : c ≠ '0' → (∀ d ∈ c :: ds, d.isDigit = true) →
    CanonicalDecimal ('-' :: c :: ds) (-ofDigits (c :: ds))

/-- Digits without a zero in front are those of the positive number that they denote. -/
theorem digits_ofDigits_cons {c : Char} {ds : List Char} (hc : c ≠ '0')
    (hds : ∀ d ∈ c :: ds, d.isDigit = true) :
    0 < ofDigits (c :: ds) ∧ digits (ofDigits (c :: ds)) = c :: ds := by
  have hdigits : digits (ofDigits (c :: ds)) = c :: ds :=
    digits_ofDigits (List.cons_ne_nil _ _) (fun h => hc (Option.some.inj h)) hds
  refine ⟨Nat.pos_of_ne_zero fun hzero => ?_, hdigits⟩
  rw [hzero, digits_zero] at hdigits
  exact hc (List.head_eq_of_cons_eq hdigits).symm

theorem CanonicalDecimal.eq_intText {text : List Char} {n : Int} (h : CanonicalDecimal text n) :
    text = intText n := by
  cases h with
  | zero => rfl
  | positive hc hds =>
    rw [intText, if_neg (by omega), Int.natAbs_natCast, (digits_ofDigits_cons hc hds).2]
  | negative hc hds =>
    obtain ⟨hpos, hdigits⟩ := digits_ofDigits_cons hc hds
    rw [intText, if_pos (by omega), Int.natAbs_neg, Int.natAbs_natCast, hdigits]

theorem canonicalDecimal_intText (n : Int) : CanonicalDecimal (intText n) n := by
  rcases Nat.eq_zero_or_pos n.natAbs with hzero | hpos
  · rw [Int.natAbs_eq_zero.1 hzero]
    exact .zero
  · have hdigits : ∀ c ∈ digits n.natAbs, c.isDigit = true := fun _ => isDigit_of_mem_digits
    have hvalue := ofDigits_digits n.natAbs
    have hhead := head?_digits_ne_zero hpos
    unfold intText
    obtain ⟨c, ds, hcons⟩ := List.exists_cons_of_ne_nil (digits_ne_nil n.natAbs)
    rw [hcons] at hdigits hvalue hhead ⊢
    have hc : c ≠ '0' := fun h => hhead (congrArg some h)
    split
    next hnegative =>
      have hn : n = -ofDigits (c :: ds) := by omega
      conv => rhs; rw [hn]
      exact .negative hc hdigits
    next hpositive =>
      have hn : n = ofDigits (c :: ds) := by omega
      conv => rhs; rw [hn]
      exact .positive hc hdigits

/-- An integer has one canonical decimal, its text. -/
theorem canonicalDecimal_iff {text : List Char} {n : Int} :
    CanonicalDecimal text n ↔ text = intText n :=
  ⟨CanonicalDecimal.eq_intText, fun h => h ▸ canonicalDecimal_intText n⟩

namespace Key

open Numeral

/-! ## Reading the bytes -/

/-- The text behind a minus sign at its start. -/
def afterMinus (text : String) : String :=
  match text.toList with
  | '-' :: ds => String.ofList ds
  | _ => text

/-- Whether a text is digits after at most a minus sign, and zero leads only alone. -/
def isCanonical (text : String) : Bool :=
  let digits := afterMinus text
  if digits.isEmpty || !(utf8Bytes digits).all isDigitByte then false
  else !(digits.toList.head? == some '0' &&
    (1 < digits.utf8ByteSize || digits.utf8ByteSize != text.utf8ByteSize))

/-- One digit more, away from zero; nothing if a step is out of range. -/
def accumulate? (negative : Bool) (n : Int64) (digit : UInt8) : Option Int64 :=
  if isDigitByte digit then do
    let d := (digit - '0'.toUInt8).toNat
    let tens ← int64? (n.toInt * 10)
    int64? (if negative then tens.toInt - d else tens.toInt + d)
  else none

def digits? (negative : Bool) (ds : List UInt8) : Option Int64 :=
  if ds.isEmpty then none else ds.foldlM (accumulate? negative) 0

/-- The 64-bit integer that a text denotes: digits after a sign, if there is one. -/
def parse? (text : String) : Option Int64 :=
  match utf8Bytes text with
  | [] => none
  | b :: ds =>
    if b = '-'.toUInt8 then digits? true ds
    else if b = '+'.toUInt8 then digits? false ds
    else digits? false (b :: ds)

/-- The key of a text, by its bytes. -/
def ofBytes (text : String) : Key :=
  match if isCanonical text then parse? text else none with
  | some i => .index i
  | none => .name text

/-! ## Digits in range -/

theorem le_ofDigitChars (ds : List Char) (n : ℕ) : n ≤ Nat.ofDigitChars 10 ds n := by
  induction ds generalizing n with
  | nil => exact Nat.le_refl n
  | cons c ds ih =>
    rw [Nat.ofDigitChars_cons]
    exact Nat.le_trans (by omega) (ih _)

/-- A greater magnitude is not in range either. -/
theorem int64?_eq_none_of_le {negative : Bool} {m n : ℕ} (hle : m ≤ n)
    (h : int64? (if negative then -(m : Int) else m) = none) :
    int64? (if negative then -(n : Int) else n) = none := by
  rw [int64?_eq_none_iff] at h ⊢
  cases negative with
  | true =>
    simp only [if_true] at h ⊢
    omega
  | false =>
    simp only [Bool.false_eq_true, if_false] at h ⊢
    omega

section Digits

variable {negative : Bool} {i : Int64} {n : ℕ}

theorem accumulate?_digitChar {d : ℕ} (hd : d < 10)
    (hi : i.toInt = if negative then -(n : Int) else n) :
    accumulate? negative i (Nat.digitChar d).toUInt8 =
      int64? (if negative then -((10 * n + d : ℕ) : Int) else (10 * n + d : ℕ)) := by
  have hbyte : isDigitByte (Nat.digitChar d).toUInt8 = true ∧
      ((Nat.digitChar d).toUInt8 - '0'.toUInt8).toNat = d := by
    revert d
    decide
  unfold accumulate?
  rw [if_pos hbyte.1, hbyte.2]
  have htens : i.toInt * 10 = if negative then -((10 * n : ℕ) : Int) else (10 * n : ℕ) := by
    rw [hi]
    split
    · omega
    · omega
  cases hstep : int64? (i.toInt * 10) with
  | none =>
    rw [htens] at hstep
    exact (int64?_eq_none_of_le (Nat.le_add_right _ d) hstep).symm
  | some tens =>
    rw [← int64?_eq_some_iff.1 hstep] at htens
    refine congrArg int64? ?_
    rw [htens]
    split
    · omega
    · omega

/-- Digits one after another: if a step leaves the range, so does the whole. -/
theorem foldlM_accumulate? {ds : List Char} (h : ∀ c ∈ ds, c.isDigit = true)
    (hi : i.toInt = if negative then -(n : Int) else n) :
    (ds.map Char.toUInt8).foldlM (accumulate? negative) i =
      int64? (if negative then -(Nat.ofDigitChars 10 ds n : Int) else Nat.ofDigitChars 10 ds n) := by
  induction ds generalizing i n with
  | nil => exact (int64?_eq_some_iff.2 hi).symm
  | cons c ds ih =>
    obtain ⟨d, hd, rfl⟩ := exists_digitChar_eq (h c List.mem_cons_self)
    rw [List.map_cons, List.foldlM_cons, accumulate?_digitChar hd hi,
      Nat.ofDigitChars_cons_digitChar_of_lt_ten hd]
    cases hstep : int64? (if negative then -((10 * n + d : ℕ) : Int) else (10 * n + d : ℕ)) with
    | none => exact (int64?_eq_none_of_le (le_ofDigitChars ds _) hstep).symm
    | some j =>
      exact ih (fun c hc => h c (List.mem_cons_of_mem _ hc)) (int64?_eq_some_iff.1 hstep)

theorem digits?_eq {ds : List Char} (hne : ds ≠ []) (h : ∀ c ∈ ds, c.isDigit = true) :
    digits? negative (ds.map Char.toUInt8) =
      int64? (if negative then -(ofDigits ds : Int) else ofDigits ds) := by
  have hzero : (0 : Int64).toInt = if negative then -((0 : ℕ) : Int) else (0 : ℕ) := by
    cases negative <;> rfl
  rw [digits?, List.isEmpty_map, if_neg (by simpa using hne), foldlM_accumulate? h hzero, ofDigits]

end Digits

/-! ## Texts of integers -/

theorem utf8ByteSize_eq (text : String) : text.utf8ByteSize = text.toList.utf8Encode.size := by
  rw [← String.size_toByteArray, ← String.toByteArray_ofList, String.ofList_toList]

/-- The test by the characters behind the sign. -/
theorem isCanonical_of_afterMinus {text : String} {ds : List Char}
    (h : afterMinus text = String.ofList ds) :
    isCanonical text = true ↔ ds ≠ [] ∧ (∀ c ∈ ds, c.isDigit = true) ∧
      ¬(ds.head? = some '0' ∧ (1 < ds.length ∨ ds.utf8Encode.size ≠ text.utf8ByteSize)) := by
  unfold isCanonical
  dsimp only
  rw [h, isEmpty_ofList, sameKind_digit.all_utf8Bytes, utf8ByteSize_eq, String.toList_ofList]
  by_cases hempty : ds = []
  · simp [hempty]
  by_cases hdigits : ∀ c ∈ ds, c.isDigit = true
  · rw [if_neg (by simpa [hempty] using hdigits), sameKind_digit.size_utf8Encode hdigits,
      and_iff_right hempty, and_iff_right hdigits]
    simp [imp_iff_not_or]
  · rw [if_pos (by simpa [hempty] using hdigits)]
    simp [hdigits]

theorem isCanonical_iff_of_minus {text : String} {ds : List Char}
    (htext : text.toList = '-' :: ds) :
    isCanonical text = true ↔ ∃ n, CanonicalDecimal text.toList n := by
  have hafter : afterMinus text = String.ofList ds := by
    rw [afterMinus, htext]
    rfl
  have hlonger : ds.utf8Encode.size ≠ text.utf8ByteSize := by
    rw [utf8ByteSize_eq, htext, List.utf8Encode_cons, ByteArray.size_append]
    have hone : ['-'].utf8Encode.size = 1 := rfl
    omega
  rw [isCanonical_of_afterMinus hafter, htext]
  constructor
  · rintro ⟨hne, hdigits, hhead⟩
    obtain ⟨c, ds, rfl⟩ := List.exists_cons_of_ne_nil hne
    have hc : c ≠ '0' := fun h => hhead ⟨congrArg some h, .inr hlonger⟩
    exact ⟨_, .negative hc hdigits⟩
  · rintro ⟨n, - | ⟨-, hdigits⟩ | ⟨hc, hdigits⟩⟩
    · exact absurd (hdigits '-' List.mem_cons_self) (by decide)
    · exact ⟨List.cons_ne_nil _ _, hdigits, fun h => hc (Option.some.inj h.1)⟩

theorem isCanonical_iff_of_ne_minus {text : String} (hminus : text.toList.head? ≠ some '-') :
    isCanonical text = true ↔ ∃ n, CanonicalDecimal text.toList n := by
  have hafter : afterMinus text = String.ofList text.toList := by
    rw [afterMinus, String.ofList_toList]
    split
    next ds htext => exact absurd (by rw [htext]; rfl) hminus
    next => rfl
  rw [isCanonical_of_afterMinus hafter, utf8ByteSize_eq]
  generalize text.toList = cs at hminus
  constructor
  · rintro ⟨hne, hdigits, hhead⟩
    obtain ⟨c, ds, rfl⟩ := List.exists_cons_of_ne_nil hne
    by_cases hc : c = '0'
    · subst hc
      have hlength : ¬1 < ('0' :: ds).length := fun hlt => hhead ⟨rfl, .inl hlt⟩
      rw [List.length_cons] at hlength
      rw [List.eq_nil_of_length_eq_zero (by omega : ds.length = 0)]
      exact ⟨_, .zero⟩
    · exact ⟨_, .positive hc hdigits⟩
  · rintro ⟨n, - | ⟨hc, hdigits⟩ | ⟨hc, hdigits⟩⟩
    · simp
    · exact ⟨List.cons_ne_nil _ _, hdigits, fun h => hc (Option.some.inj h.1)⟩
    · exact absurd rfl hminus

theorem isCanonical_iff {text : String} :
    isCanonical text = true ↔ ∃ n, CanonicalDecimal text.toList n := by
  by_cases hminus : text.toList.head? = some '-'
  · obtain ⟨ds, htext⟩ := List.head?_eq_some_iff.1 hminus
    exact isCanonical_iff_of_minus htext
  · exact isCanonical_iff_of_ne_minus hminus

theorem parse?_of_isDigit {c : Char} {ds : List Char} (h : ∀ d ∈ c :: ds, d.isDigit = true) :
    parse? (String.ofList (c :: ds)) = int64? (ofDigits (c :: ds)) := by
  have hdigit : ∀ d < 10, (Nat.digitChar d).toUInt8 ≠ '-'.toUInt8 ∧
      (Nat.digitChar d).toUInt8 ≠ '+'.toUInt8 := by decide
  have hsign : c.toUInt8 ≠ '-'.toUInt8 ∧ c.toUInt8 ≠ '+'.toUInt8 := by
    obtain ⟨d, hd, rfl⟩ := exists_digitChar_eq (h c List.mem_cons_self)
    exact hdigit d hd
  have hread := @digits?_eq false _ (List.cons_ne_nil c ds) h
  unfold parse?
  rw [sameKind_digit.utf8Bytes_ofList h]
  rw [List.map_cons] at hread ⊢
  dsimp only
  rw [if_neg hsign.1, if_neg hsign.2]
  exact hread

theorem parse?_minus {ds : List Char} (hne : ds ≠ []) (h : ∀ d ∈ ds, d.isDigit = true) :
    parse? (String.ofList ('-' :: ds)) = int64? (-ofDigits ds) := by
  have hbytes : utf8Bytes (String.ofList ('-' :: ds)) = '-'.toUInt8 :: ds.map Char.toUInt8 := by
    rw [utf8Bytes_ofList, List.flatMap_cons, ← utf8Bytes_ofList, sameKind_digit.utf8Bytes_ofList h]
    rfl
  unfold parse?
  rw [hbytes]
  dsimp only
  rw [if_pos rfl]
  exact digits?_eq hne h

theorem parse?_of_canonicalDecimal {text : String} {n : Int} (h : CanonicalDecimal text.toList n) :
    parse? text = int64? n := by
  rw [← String.ofList_toList (s := text)]
  generalize text.toList = cs at h
  rcases h with - | ⟨-, hdigits⟩ | ⟨-, hdigits⟩
  · exact parse?_of_isDigit (List.forall_mem_singleton.2 rfl)
  · exact parse?_of_isDigit hdigits
  · exact parse?_minus (List.cons_ne_nil _ _) hdigits

/-- The bytes of a text tell its key. -/
theorem ofBytes_eq_ofText (text : String) : ofBytes text = ofText text := by
  have hread : (if isCanonical text then parse? text else none) =
      (intOfText? text.toList).bind int64? := by
    cases hn : intOfText? text.toList with
    | some n =>
      have hcanonical := canonicalDecimal_iff.2 (intOfText?_eq_some_iff.1 hn)
      rw [if_pos (isCanonical_iff.2 ⟨n, hcanonical⟩), parse?_of_canonicalDecimal hcanonical,
        Option.bind_some]
    | none =>
      rw [if_neg, Option.bind_none]
      intro h
      obtain ⟨n, hcanonical⟩ := isCanonical_iff.1 h
      rw [intOfText?_eq_some_iff.2 (canonicalDecimal_iff.1 hcanonical)] at hn
      cases hn
  exact congrArg (fun found : Option Int64 =>
    match found with
    | some i => index i
    | none => name text) hread

end Key

end LooseTypes
