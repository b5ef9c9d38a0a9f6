import LooseTypes.Json.Lexer
import LooseTypes.Proofs.Binary64.Shortest
import LooseTypes.Proofs.Numeral

/-!
# The parts of written numbers

A text that is written from the parts of a number is split into these parts again
(`Parts.Writes.parts?_eq`). Such are the decimal text of an integer, and the written form of a finite
binary64 number in each of its layouts (`writes_finite`). The digits of the parts make the
significand, as long as they fit in 64 bits (`Parts.scaled_eq`); of an integer that does not fit the
digits that are left out are counted (`significand_spec`).
-/

namespace LooseTypes

theorem isWholePart_of_head? {ds : List Char} (hne : ds ≠ []) (hhead : ds.head? ≠ some '0') :
    Json.isWholePart ds = true := by
  obtain ⟨c, more, rfl⟩ := List.exists_cons_of_ne_nil hne
  have hc : c ≠ '0' := fun h => hhead (by rw [h]; rfl)
  simp [Json.isWholePart, hc]

theorem isWholePart_digits (n : Nat) : Json.isWholePart (digits n) = true := by
  rcases Nat.eq_zero_or_pos n with rfl | hn
  · rw [digits_zero]
    rfl
  · exact isWholePart_of_head? (digits_ne_nil n) (head?_digits_ne_zero hn)

/-- The first digits of a number that are not all of them. -/
theorem isWholePart_take_digits {n : Nat} (hn : 0 < n) (k : Nat) :
    Json.isWholePart ((digits n).take (k + 1)) = true := by
  refine isWholePart_of_head? ?_ ?_
  · simpa using digits_ne_nil n
  · rw [List.head?_take, if_neg k.succ_ne_zero]
    exact head?_digits_ne_zero hn

namespace Json

theorem isNumberChar_of_isDigit {c : Char} (h : c.isDigit = true) : isNumberChar c = true := by
  simp [isNumberChar, h]

theorem ne_minus_of_isDigit {c : Char} (h : c.isDigit = true) : c ≠ '-' := by
  rintro rfl
  exact absurd h (by decide)

/-! ## Splitting a text -/

theorem splitMinus_signed (negative : Bool) {text : List Char} (h : ∀ c ∈ text.head?, c ≠ '-') :
    splitMinus (if negative then '-' :: text else text) = (negative, text) := by
  cases negative with
  | true => rfl
  | false =>
    rw [if_neg Bool.false_ne_true]
    unfold splitMinus
    split
    next cs => exact absurd rfl (h '-' rfl)
    next => rfl

namespace Parts

/-- The text is written from the parts. -/
inductive Writes : Parts → List Char → Prop where
  | intro {negative : Bool} {whole fraction tail : List Char} {exponent : Option Int} :
    isWholePart whole = true → (∀ c ∈ whole, c.isDigit = true) →
    (∀ c ∈ fraction, c.isDigit = true) → (∀ c ∈ tail.head?, c = 'e') →
    (∀ c ∈ tail, isNumberChar c = true) → exponent? tail = some exponent →
    Writes ⟨negative, whole, fraction, exponent⟩
      (if negative then '-' :: (Layout.pointed whole fraction ++ tail)
        else Layout.pointed whole fraction ++ tail)

variable {p : Parts} {text : List Char}

theorem parts?_whole {whole rest : List Char} (negative : Bool) (hwhole : isWholePart whole = true)
    (hdigits : ∀ c ∈ whole, c.isDigit = true) (hrest : ∀ c ∈ rest.head?, c.isDigit = false) :
    parts? (if negative then '-' :: (whole ++ rest) else whole ++ rest) =
      (do
        let (fraction, rest) ← fraction? rest
        let exponent ← exponent? rest
        return ⟨negative, whole, fraction, exponent⟩) := by
  have hhead : ∀ c ∈ (whole ++ rest).head?, c ≠ '-' := by
    cases whole with
    | nil => cases hwhole
    | cons d ds =>
      rintro c hc
      cases hc
      exact ne_minus_of_isDigit (hdigits d List.mem_cons_self)
  simp only [parts?, splitMinus_signed negative hhead, takeWhile_append_of_head hdigits hrest,
    dropWhile_append_of_head hdigits hrest, hwhole]
  rfl

theorem Writes.parts?_eq (h : p.Writes text) : parts? text = some p := by
  cases h with
  | @intro negative whole fraction tail exponent hwhole hdigits hfraction hhead _ htail =>
    have hhead' : ∀ c ∈ tail.head?, c.isDigit = false := by
      rintro c hc
      rw [hhead c hc]
      rfl
    cases fraction with
    | nil =>
      have hsplit : fraction? tail = some ([], tail) := by
        cases tail with
        | nil => rfl
        | cons c tail =>
          cases hhead c rfl
          rfl
      have hpointed : Layout.pointed whole [] = whole := rfl
      have hparts := parts?_whole negative hwhole hdigits hhead'
      rw [hsplit] at hparts
      rw [hpointed]
      simpa [htail] using hparts
    | cons d ds =>
      have hpoint : ∀ c ∈ ('.' :: (d :: ds ++ tail)).head?, c.isDigit = false := by
        rintro c hc
        cases hc
        rfl
      have hsplit : fraction? ('.' :: (d :: ds ++ tail)) = some (d :: ds, tail) := by
        simp only [fraction?, takeWhile_append_of_head hfraction hhead',
          dropWhile_append_of_head hfraction hhead']
        rfl
      have hpointed : Layout.pointed whole (d :: ds) ++ tail = whole ++ '.' :: (d :: ds ++ tail) := by
        simp [Layout.pointed]
      have hparts := parts?_whole negative hwhole hdigits hpoint
      rw [hsplit] at hparts
      rw [hpointed]
      simpa [htail] using hparts

theorem Writes.number?_eq (h : p.Writes text) : number? text = p.token? := by
  rw [number?, h.parts?_eq, Option.bind_some]

theorem Writes.isNumberChar (h : p.Writes text) : ∀ c ∈ text, isNumberChar c = true := by
  cases h with
  | @intro negative whole fraction tail _ _ hdigits hfraction _ htail _ =>
    have hpointed : ∀ c ∈ Layout.pointed whole fraction, Json.isNumberChar c = true := by
      unfold Layout.pointed
      split
      next => exact fun c hc => isNumberChar_of_isDigit (hdigits c hc)
      next =>
        refine List.forall_mem_append.2 ⟨fun c hc => isNumberChar_of_isDigit (hdigits c hc), ?_⟩
        exact List.forall_mem_cons.2 ⟨rfl, fun c hc => isNumberChar_of_isDigit (hfraction c hc)⟩
    have hbody := List.forall_mem_append.2 ⟨hpointed, htail⟩
    cases negative with
    | false => exact hbody
    | true => exact List.forall_mem_cons.2 ⟨rfl, hbody⟩

end Parts

/-! ## The significand -/

theorem le_ofDigitChars (n : Nat) (ds : List Char) : n ≤ Nat.ofDigitChars 10 ds n := by
  rw [Nat.ofDigitChars_eq_ofDigitChars_zero]
  exact Nat.le_trans (Nat.le_mul_of_pos_left n (Nat.pow_pos (by decide))) (Nat.le_add_right ..)

theorem significand_of_le {n : Nat} {ds : List Char} (h : Nat.ofDigitChars 10 ds n ≤ uint64Max) :
    significand n ds = (Nat.ofDigitChars 10 ds n, []) := by
  induction ds generalizing n with
  | nil => rfl
  | cons c cs ih =>
    rw [Nat.ofDigitChars_cons] at h ⊢
    have hnext := Nat.le_trans (le_ofDigitChars _ cs) h
    simp only [significand, if_pos hnext, ih h]

/-- Digits are left out as soon as the next one would not fit. -/
theorem significand_spec {n m : Nat} {ds left : List Char} (hdigits : ∀ c ∈ ds, c.isDigit = true)
    (h : significand n ds = (m, left)) :
    m * 10 ^ left.length ≤ Nat.ofDigitChars 10 ds n ∧
      Nat.ofDigitChars 10 ds n < (m + 1) * 10 ^ left.length ∧
      (n ≤ uint64Max → m ≤ uint64Max) ∧ (left = [] ∨ uint64Max < 10 * m + 10) := by
  induction ds generalizing n with
  | nil =>
    cases h
    simp
  | cons c cs ih =>
    rw [significand] at h
    split at h
    next hle =>
      rw [Nat.ofDigitChars_cons]
      obtain ⟨hlow, hhigh, hmax, hleft⟩ := ih (fun d hd => hdigits d (List.mem_cons_of_mem c hd)) h
      exact ⟨hlow, hhigh, fun _ => hmax hle, hleft⟩
    next hgt =>
      cases h
      have hlt := ofDigits_lt hdigits
      have hc := Char.isDigit_iff_toNat.1 (hdigits c List.mem_cons_self)
      rw [ofDigits] at hlt
      rw [Nat.ofDigitChars_eq_ofDigitChars_zero, Nat.mul_comm (10 ^ _), Nat.add_mul, Nat.one_mul]
      refine ⟨Nat.le_add_right .., Nat.add_lt_add_left hlt _, id, .inr ?_⟩
      have hzero : '0'.toNat = 48 := rfl
      have hnine : '9'.toNat = 57 := rfl
      omega

section Digits

variable {n m : Nat} {left : List Char}

theorem significand_digits (h : n ≤ uint64Max) : significand 0 (digits n) = (n, []) := by
  have hdigits : Nat.ofDigitChars 10 (digits n) 0 = n := ofDigits_digits n
  rw [significand_of_le (hdigits.symm ▸ h), hdigits]

theorem significand_digits_spec (h : significand 0 (digits n) = (m, left)) :
    m * 10 ^ left.length ≤ n ∧ n < (m + 1) * 10 ^ left.length ∧ m ≤ uint64Max ∧
      (left = [] ∨ uint64Max < 10 * m + 10) := by
  obtain ⟨hlow, hhigh, hfits, hleft⟩ := significand_spec (fun c => isDigit_of_mem_digits) h
  rw [← ofDigits, ofDigits_digits] at hlow hhigh
  exact ⟨hlow, hhigh, hfits (Nat.zero_le _), hleft⟩

end Digits

namespace Parts

theorem scaled_eq {p : Parts} (h : ofDigits (p.whole ++ p.fraction) ≤ uint64Max) :
    p.scaled = (ofDigits (p.whole ++ p.fraction), p.exponent.getD 0 - p.fraction.length) := by
  rw [ofDigits, Nat.ofDigitChars_append] at h ⊢
  have hwhole := significand_of_le (Nat.le_trans (le_ofDigitChars _ p.fraction) h)
  simp only [scaled, hwhole, significand_of_le h, List.length_nil]
  rw [Prod.mk.injEq]
  exact ⟨rfl, by omega⟩

theorem token?_whole (negative : Bool) (whole : List Char) :
    token? ⟨negative, whole, [], none⟩ =
      integer? negative (significand 0 whole).1 (significand 0 whole).2.length := rfl

/-- A number with a point or an exponent is a product. -/
theorem token?_eq_float? {p : Parts} (hpoint : p.fraction ≠ [] ∨ p.exponent ≠ none)
    (h : ofDigits (p.whole ++ p.fraction) ≤ uint64Max) :
    p.token? = float? p.negative (ofDigits (p.whole ++ p.fraction))
      (p.exponent.getD 0 - p.fraction.length) := by
  have hnot : (p.fraction.isEmpty && p.exponent.isNone) = false := by
    rw [Bool.and_eq_false_iff, List.isEmpty_eq_false_iff, ← Bool.not_eq_true, Option.isNone_iff_eq_none]
    exact hpoint
  rw [token?, if_neg (by simp [hnot]), scaled_eq h]

end Parts

/-! ## Integers -/

theorem intText_eq_signed (n : Int) :
    intText n = if decide (n < 0) then '-' :: digits n.natAbs else digits n.natAbs := by
  simp [intText]

theorem writes_intText (n : Int) :
    Parts.Writes ⟨decide (n < 0), digits n.natAbs, [], none⟩ (intText n) := by
  have h := @Parts.Writes.intro (decide (n < 0)) (digits n.natAbs) [] [] none
    (isWholePart_digits n.natAbs) (fun c => isDigit_of_mem_digits) (by simp) (by simp) (by simp) rfl
  rw [intText_eq_signed]
  simpa [Layout.pointed] using h

theorem isNumberChar_of_mem_intText {n : Int} : ∀ c ∈ intText n, isNumberChar c = true :=
  (writes_intText n).isNumberChar

theorem signed_eq_natAbs (n : Int) :
    (if decide (n < 0) then -(n.natAbs : Int) else n.natAbs) = n := by
  split
  next h =>
    rw [decide_eq_true_eq] at h
    omega
  next h =>
    rw [decide_eq_true_eq] at h
    omega

/-- An integer in range is read as such. -/
theorem number?_intText {n : Int} {i : Int64} (h : int64? n = some i) :
    number? (intText n) = some (.int i) := by
  have hlow := i.le_toInt
  have hhigh := i.toInt_lt
  have hi : i.toInt = n := int64?_eq_some_iff.1 h
  have hfits : n.natAbs ≤ uint64Max := by
    rw [uint64Max]
    omega
  have hzero : (decide (n < 0) && n.natAbs == 0) = false := by
    rw [Bool.and_eq_false_iff, decide_eq_false_iff_not, beq_eq_false_iff_ne]
    omega
  rw [(writes_intText n).number?_eq, Parts.token?_whole]
  simp only [significand_digits hfits, integer?, signed_eq_natAbs, h, hzero]
  rfl

/-- Any other integer is a product of its significand and a power of ten for the digits left out. -/
theorem number?_intText_of_large {n : Int} {m : Nat} {left : List Char} (h : int64? n = none)
    (hm : significand 0 (digits n.natAbs) = (m, left)) :
    number? (intText n) = float? (decide (n < 0)) m left.length := by
  rw [(writes_intText n).number?_eq, Parts.token?_whole, hm, integer?]
  split
  next i hi =>
    split
    next hall =>
      -- with no digit left out the significand is the number itself
      have hleft : left.length = 0 := by simpa using (Bool.and_eq_true_iff.1 hall).1
      obtain ⟨hlow, hhigh, -⟩ := significand_digits_spec hm
      rw [hleft, Nat.pow_zero, Nat.mul_one] at hlow hhigh
      have hm : m = n.natAbs := by omega
      rw [hm, signed_eq_natAbs, h] at hi
      cases hi
    next => rfl
  next => rfl

/-! ## Finite binary64 numbers -/

theorem exponentDigits?_digits (n : Nat) : exponentDigits? (digits n) = some n := by
  have hdigits : areDigits (digits n) = true := by
    rw [areDigits, Bool.and_eq_true, List.all_eq_true]
    exact ⟨by simp [digits_ne_nil], fun c => isDigit_of_mem_digits⟩
  rw [exponentDigits?, if_pos hdigits, ofDigits_digits]

theorem exponent?_plus (n : Nat) : exponent? ('e' :: '+' :: digits n) = some (some (n : Int)) := by
  simp [exponent?, exponentDigits?_digits]

theorem exponent?_minus (n : Nat) :
    exponent? ('e' :: '-' :: digits n) = some (some (-(n : Int))) := by
  simp [exponent?, exponentDigits?_digits]

theorem exponent?_intText (e : Int) :
    exponent? ('e' :: ((if 0 ≤ e then ['+'] else []) ++ intText e)) = some (some e) := by
  by_cases he : 0 ≤ e
  · rw [if_pos he, intText, if_neg (Int.not_lt.2 he), List.singleton_append, exponent?_plus]
    congr 2
    omega
  · rw [if_neg he, intText, if_pos (Int.not_le.1 he), List.nil_append, exponent?_minus]
    congr 2
    omega

/-- The parts of the written form of a decimal number. -/
def Parts.ofDecimal (negative : Bool) (d : Decimal) : Parts :=
  let ds := digits d.coefficient
  let e := d.exponent + ds.length - 1
  if Layout.interchange.isPositional e then
    if 0 ≤ d.exponent then ⟨negative, ds ++ List.replicate d.exponent.toNat '0', ['0'], none⟩
    else if 0 ≤ e then ⟨negative, ds.take (e.toNat + 1), ds.drop (e.toNat + 1), none⟩
    else ⟨negative, ['0'], List.replicate (-e - 1).toNat '0' ++ ds, none⟩
  else ⟨negative, ds.take 1, ds.drop 1, some e⟩

section Layouts

variable {d : Decimal} (negative : Bool)

theorem Parts.Writes.of_fraction {whole fraction : List Char} (negative : Bool)
    (hwhole : isWholePart whole = true) (hdigits : ∀ c ∈ whole, c.isDigit = true)
    (hfraction : ∀ c ∈ fraction, c.isDigit = true) :
    Parts.Writes ⟨negative, whole, fraction, none⟩
      (if negative then '-' :: Layout.pointed whole fraction else Layout.pointed whole fraction) := by
  have h := @Parts.Writes.intro negative whole fraction [] none hwhole hdigits hfraction (by simp)
    (by simp) rfl
  rwa [List.append_nil] at h

/-- Zeros up to the point, and one behind it. -/
theorem writes_whole (hd : 0 < d.coefficient ∨ d.exponent = 0) :
    Parts.Writes
      ⟨negative, digits d.coefficient ++ List.replicate d.exponent.toNat '0', ['0'], none⟩
      (if negative then
        '-' :: (digits d.coefficient ++ List.replicate d.exponent.toNat '0' ++ ['.', '0'])
      else digits d.coefficient ++ List.replicate d.exponent.toNat '0' ++ ['.', '0']) := by
  refine .of_fraction negative ?_
    (List.forall_mem_append.2 ⟨fun c => isDigit_of_mem_digits, isDigit_of_mem_replicate⟩)
    (List.forall_mem_singleton.2 rfl)
  rcases hd with hpos | hzero
  · refine isWholePart_of_head? (by simp [digits_ne_nil]) ?_
    rw [List.head?_append_of_ne_nil _ (digits_ne_nil _)]
    exact head?_digits_ne_zero hpos
  · rw [hzero, Int.toNat_zero, List.replicate_zero, List.append_nil]
    exact isWholePart_digits _

/-- A point within the digits. -/
theorem writes_pointed (hd : 0 < d.coefficient) (k : Nat) :
    Parts.Writes ⟨negative, (digits d.coefficient).take (k + 1), (digits d.coefficient).drop (k + 1),
        none⟩
      (if negative then '-' :: Layout.pointed ((digits d.coefficient).take (k + 1))
        ((digits d.coefficient).drop (k + 1))
      else Layout.pointed ((digits d.coefficient).take (k + 1))
        ((digits d.coefficient).drop (k + 1))) :=
  .of_fraction negative (isWholePart_take_digits hd k)
    (fun _ hc => isDigit_of_mem_digits (List.mem_of_mem_take hc))
    (fun _ hc => isDigit_of_mem_digits (List.mem_of_mem_drop hc))

/-- A point before the digits. -/
theorem writes_fraction (d : Decimal) (k : Nat) :
    Parts.Writes ⟨negative, ['0'], List.replicate k '0' ++ digits d.coefficient, none⟩
      (if negative then '-' :: '0' :: '.' :: (List.replicate k '0' ++ digits d.coefficient)
      else '0' :: '.' :: (List.replicate k '0' ++ digits d.coefficient)) := by
  have hpointed : Layout.pointed ['0'] (List.replicate k '0' ++ digits d.coefficient) =
      '0' :: '.' :: (List.replicate k '0' ++ digits d.coefficient) := by
    simp [Layout.pointed, digits_ne_nil]
  rw [← hpointed]
  exact .of_fraction negative rfl (List.forall_mem_singleton.2 rfl)
    (List.forall_mem_append.2 ⟨isDigit_of_mem_replicate, fun _ => isDigit_of_mem_digits⟩)

/-- A point after the first digit, and an exponent. -/
theorem writes_exponent (d : Decimal) (e : Int) :
    Parts.Writes ⟨negative, (digits d.coefficient).take 1, (digits d.coefficient).drop 1, some e⟩
      (if negative then '-' :: (Layout.pointed ((digits d.coefficient).take 1)
        ((digits d.coefficient).drop 1) ++ 'e' :: ((if 0 ≤ e then ['+'] else []) ++ intText e))
      else Layout.pointed ((digits d.coefficient).take 1) ((digits d.coefficient).drop 1) ++
        'e' :: ((if 0 ≤ e then ['+'] else []) ++ intText e)) := by
  have hwhole : isWholePart ((digits d.coefficient).take 1) = true := by
    rcases Nat.eq_zero_or_pos d.coefficient with hzero | hpos
    · rw [hzero, digits_zero]
      rfl
    · exact isWholePart_take_digits hpos 0
  have hmark : ∀ c ∈ if 0 ≤ e then ['+'] else [], isNumberChar c = true := by
    split
    · exact List.forall_mem_singleton.2 rfl
    · exact fun c hc => absurd hc List.not_mem_nil
  exact .intro hwhole (fun c hc => isDigit_of_mem_digits (List.mem_of_mem_take hc))
    (fun c hc => isDigit_of_mem_digits (List.mem_of_mem_drop hc)) (by simp)
    (List.forall_mem_cons.2 ⟨rfl, List.forall_mem_append.2 ⟨hmark, isNumberChar_of_mem_intText⟩⟩)
    (exponent?_intText e)

theorem writes_magnitude (hd : 0 < d.coefficient ∨ d.exponent = 0) :
    (Parts.ofDecimal negative d).Writes
      (if negative then '-' :: Layout.interchange.magnitude d
      else Layout.interchange.magnitude d) := by
  unfold Layout.magnitude Parts.ofDecimal
  dsimp only
  split
  next =>
    split
    next he => exact writes_whole negative hd
    next hneg =>
      split
      next => exact writes_pointed negative (hd.resolve_right (by omega)) _
      next => exact writes_fraction negative d _
  next => exact writes_exponent negative d _

end Layouts

theorem writes_finite (negative : Bool) (rank : Fin Binary64.rankLimit) :
    (Parts.ofDecimal negative (Binary64.shortest .even rank)).Writes
      (Layout.interchange.finite negative rank) := by
  refine writes_magnitude negative ?_
  by_cases h : rank.val = 0
  · rw [Binary64.shortest, if_pos h]
    exact .inr rfl
  · exact .inl (Binary64.coefficient_shortest_pos .even h)

theorem isNumberChar_of_mem_finite {negative : Bool} {rank : Fin Binary64.rankLimit} :
    ∀ c ∈ Layout.interchange.finite negative rank, isNumberChar c = true :=
  (writes_finite negative rank).isNumberChar

/-! ## What the parts denote -/

/-- The decimal number as it is read: the zeros up to the point, and the one behind it, belong to the
coefficient. -/
def asRead (d : Decimal) : Decimal :=
  if Layout.interchange.isPositional (d.exponent + (digits d.coefficient).length - 1) ∧
    0 ≤ d.exponent then ⟨d.coefficient * Nat.pow 10 (d.exponent.toNat + 1), -1⟩
  else d

namespace Parts

def decimal (p : Parts) : Decimal :=
  ⟨ofDigits (p.whole ++ p.fraction), p.exponent.getD 0 - p.fraction.length⟩

theorem decimal_ofDecimal (negative : Bool) (d : Decimal) :
    (ofDecimal negative d).decimal = asRead d := by
  have hlength := length_digits_pos d.coefficient
  have hextensional : ∀ {c e}, c = d.coefficient → e = d.exponent → (⟨c, e⟩ : Decimal) = d := by
    rintro c e rfl rfl
    rfl
  unfold ofDecimal
  dsimp only
  split
  next hpositional =>
    split
    next he =>
      have hall : ofDigits (digits d.coefficient ++ List.replicate d.exponent.toNat '0' ++ ['0']) =
          d.coefficient * 10 ^ (d.exponent.toNat + 1) := by
        rw [List.append_assoc, ← List.replicate_succ', ofDigits_append_zeros, ofDigits_digits]
      rw [asRead, if_pos ⟨hpositional, he⟩, decimal, hall]
      rfl
    next hneg =>
      have hread : asRead d = d := if_neg fun h => hneg h.2
      rw [hread]
      split
      next =>
        refine hextensional ?_ ?_
        · rw [List.take_append_drop, ofDigits_digits]
        · rw [List.length_drop, Option.getD_none]
          omega
      next =>
        refine hextensional ?_ ?_
        · rw [List.singleton_append, ← List.cons_append, ← List.replicate_succ,
            ofDigits_zeros_append, ofDigits_digits]
        · rw [List.length_append, List.length_replicate, Option.getD_none]
          omega
  next hscientific =>
    have hread : asRead d = d := if_neg fun h => hscientific h.1
    rw [hread]
    refine hextensional ?_ ?_
    · rw [List.take_append_drop, ofDigits_digits]
    · rw [List.length_drop, Option.getD_some]
      omega

theorem hasPoint_ofDecimal (negative : Bool) (d : Decimal) :
    (ofDecimal negative d).fraction ≠ [] ∨ (ofDecimal negative d).exponent ≠ none := by
  unfold ofDecimal
  dsimp only
  split
  next =>
    left
    split
    next => exact List.cons_ne_nil _ _
    next =>
      split
      next =>
        rw [← List.length_pos_iff, List.length_drop]
        omega
      next => simp [digits_ne_nil]
  next => exact .inr (Option.some_ne_none _)

theorem negative_ofDecimal (negative : Bool) (d : Decimal) :
    (ofDecimal negative d).negative = negative := by
  unfold ofDecimal
  dsimp only
  split_ifs <;> rfl

theorem token?_ofDecimal {d : Decimal} (negative : Bool) (h : (asRead d).coefficient ≤ uint64Max) :
    (ofDecimal negative d).token? =
      float? negative (asRead d).coefficient (asRead d).exponent := by
  rw [← decimal_ofDecimal negative] at h ⊢
  rw [token?_eq_float? (hasPoint_ofDecimal negative d) h, negative_ofDecimal]
  rfl

end Parts

end Json

end LooseTypes
