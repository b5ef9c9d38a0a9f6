import LooseTypes.Proofs.Numeral

/-!
# The grammar of leading numerals

`Written p n` says that the text `p` is the numeral `n` as the grammar has it,

    [+-]? (digits ("." digits?)? | "." digits)

and `Leads text n` that `n` is the longest such beginning of a text after its blanks. A numeral is read
from a text exactly if it leads it (`scan_eq_some_iff`), so at most one does. Whatever comes before
and after a numeral, blanks and what does not continue it, it is read all the same
(`Written.scan_append`).
-/

namespace LooseTypes.Numeral

def AreDigits (ds : List Char) : Prop := ds ≠ [] ∧ ∀ c ∈ ds, c.isDigit = true

/-- A sign that need not be there, and whether it is a minus sign. -/
inductive Sign : List Char → Bool → Prop where
  | none : Sign [] false
  | plus : Sign ['+'] false
  | minus : Sign ['-'] true

/-- `digits ("." digits?)? | "." digits`, with the digits before and after the point. -/
inductive Unsigned : List Char → List Char → List Char → Prop where
  | whole {ds : List Char} : AreDigits ds → Unsigned ds ds []
  | point {ds : List Char} : AreDigits ds → Unsigned (ds ++ ['.']) ds []
  | both {ds fs : List Char} : AreDigits ds → AreDigits fs → Unsigned (ds ++ '.' :: fs) ds fs
  | fraction {fs : List Char} : AreDigits fs → Unsigned ('.' :: fs) [] fs

inductive Written : List Char → Numeral → Prop where
  | intro {sign unsigned whole fraction : List Char} {negative : Bool} :
    Sign sign negative → Unsigned unsigned whole fraction →
    Written (sign ++ unsigned) ⟨negative, whole, fraction⟩

/-- The text `p` is the longest beginning of a text that is a numeral, and it is the numeral `n`. -/
structure LongestPrefix (text p : List Char) (n : Numeral) : Prop where
  written : Written p n
  isPrefix : p <+: text
  longest : ∀ q m, Written q m → q <+: text → q.length ≤ p.length

def blanks : List Char := [' ', '\t', '\n', '\r', '\x0b', '\x0c']

def withoutBlanks (text : List Char) : List Char := text.dropWhile (· ∈ blanks)

/-- The text begins with the numeral `n`, after blanks and as far as a numeral goes. -/
def Leads (text : List Char) (n : Numeral) : Prop := ∃ p, LongestPrefix (withoutBlanks text) p n

/-! ## Numerals are read -/

theorem isBlank_eq (c : Char) : isBlank c = decide (c ∈ blanks) := by
  simp only [isBlank, blanks, List.mem_cons, List.not_mem_nil, or_false, beq_eq_decide,
    Bool.decide_or, Bool.or_assoc]

theorem dropWhile_isBlank (text : List Char) : text.dropWhile isBlank = withoutBlanks text := by
  have hsame : isBlank = fun c => decide (c ∈ blanks) := funext isBlank_eq
  rw [withoutBlanks, hsame]

/-- What does not continue the digits of a numeral, nor begin its fraction. -/
def Stops (rest : List Char) : Prop := ∀ c ∈ rest.head?, c.isDigit = false ∧ c ≠ '.'

/-- Without a point there is no fraction. -/
theorem fractionOf_eq_nil {tail : List Char} (h : tail.head? ≠ some '.') : fractionOf tail = [] := by
  unfold fractionOf
  split
  next cs => exact absurd rfl h
  next => rfl

section Unsigned

variable {unsigned whole fraction sign rest : List Char} {negative : Bool}

theorem Unsigned.isDigit_whole (h : Unsigned unsigned whole fraction) :
    ∀ c ∈ whole, c.isDigit = true := by
  cases h with
  | whole hds | point hds | both hds => exact hds.2
  | fraction => exact fun c hc => absurd hc List.not_mem_nil

theorem Unsigned.isDigit_fraction (h : Unsigned unsigned whole fraction) :
    ∀ c ∈ fraction, c.isDigit = true := by
  cases h with
  | whole | point => exact fun c hc => absurd hc List.not_mem_nil
  | both _ hfs => exact hfs.2
  | fraction hfs => exact hfs.2

theorem Unsigned.parts_ne_nil (h : Unsigned unsigned whole fraction) :
    (whole.isEmpty && fraction.isEmpty) = false := by
  cases h with
  | whole hds | point hds | both hds => simp [hds.1]
  | fraction hfs => simp [hfs.1]

/-- Digits on either side of a point are enough. -/
theorem unsigned_pointed (hwhole : ∀ c ∈ whole, c.isDigit = true)
    (hfraction : ∀ c ∈ fraction, c.isDigit = true)
    (hparts : (whole.isEmpty && fraction.isEmpty) = false) :
    Unsigned (whole ++ '.' :: fraction) whole fraction := by
  cases whole with
  | nil =>
    cases fraction with
    | nil => cases hparts
    | cons c fs => exact .fraction ⟨List.cons_ne_nil _ _, hfraction⟩
  | cons c ds =>
    cases fraction with
    | nil => exact .point ⟨List.cons_ne_nil _ _, hwhole⟩
    | cons d fs => exact .both ⟨List.cons_ne_nil _ _, hwhole⟩ ⟨List.cons_ne_nil _ _, hfraction⟩

/-- An unsigned numeral begins with a digit or a point, so with neither a blank nor a sign. -/
theorem Unsigned.head (h : Unsigned unsigned whole fraction) :
    ∀ c ∈ (unsigned ++ rest).head?, isBlank c = false ∧ c ≠ '+' ∧ c ≠ '-' := by
  have hdigits : ∀ {ds tail : List Char}, AreDigits ds →
      ∀ c ∈ (ds ++ tail).head?, isBlank c = false ∧ c ≠ '+' ∧ c ≠ '-' := by
    intro ds tail hds c hc
    rw [List.head?_append_of_ne_nil _ hds.1] at hc
    have hdigit := hds.2 c (List.mem_of_head? hc)
    exact ⟨not_isBlank_of_isDigit hdigit, ne_sign_of_isDigit hdigit⟩
  cases h with
  | whole hds => exact hdigits hds
  | point hds | both hds =>
    rw [List.append_assoc]
    exact hdigits hds
  | fraction =>
    rintro c ⟨⟩
    decide

theorem Sign.splitSign_append (hsign : Sign sign negative)
    (h : ∀ c ∈ rest.head?, c ≠ '+' ∧ c ≠ '-') : splitSign (sign ++ rest) = (negative, rest) := by
  cases hsign with
  | none => exact splitSign_eq_self h
  | plus | minus => rfl

/-- A sign is no blank, and an unsigned numeral does not begin with one. -/
theorem withoutBlanks_append {front : List Char} (hfront : ∀ c ∈ front, c ∈ blanks)
    (hsign : Sign sign negative) (h : Unsigned unsigned whole fraction) :
    withoutBlanks (front ++ (sign ++ (unsigned ++ rest))) = sign ++ (unsigned ++ rest) := by
  refine dropWhile_append_of_head (fun c hc => decide_eq_true (hfront c hc)) fun c hc => ?_
  rw [← isBlank_eq]
  cases hsign with
  | none => exact (h.head c hc).1
  | plus | minus =>
    cases hc
    rfl

/-- The scan of a numeral is that of its digits. -/
theorem scan_front {front : List Char} (hfront : ∀ c ∈ front, c ∈ blanks)
    (hsign : Sign sign negative) (h : Unsigned unsigned whole fraction) :
    scan (front ++ (sign ++ (unsigned ++ rest))) =
      if ((unsigned ++ rest).takeWhile Char.isDigit).isEmpty &&
          (fractionOf ((unsigned ++ rest).dropWhile Char.isDigit)).isEmpty then none
      else some ⟨negative, (unsigned ++ rest).takeWhile Char.isDigit,
        fractionOf ((unsigned ++ rest).dropWhile Char.isDigit)⟩ := by
  refine scan_of_split ?_
  rw [dropWhile_isBlank, withoutBlanks_append hfront hsign h,
    hsign.splitSign_append fun c hc => (h.head c hc).2]

/-- The digits are read as far as the numeral goes. -/
theorem Unsigned.read (h : Unsigned unsigned whole fraction) (hrest : Stops rest) :
    (unsigned ++ rest).takeWhile Char.isDigit = whole ∧
      fractionOf ((unsigned ++ rest).dropWhile Char.isDigit) = fraction := by
  have hdigit : ∀ c ∈ rest.head?, c.isDigit = false := fun c hc => (hrest c hc).1
  have hnone : fractionOf rest = [] := fractionOf_eq_nil fun hpoint => (hrest '.' hpoint).2 rfl
  cases h with
  | whole hds =>
    rw [takeWhile_append_of_head hds.2 hdigit, dropWhile_append_of_head hds.2 hdigit]
    exact ⟨rfl, hnone⟩
  | point hds =>
    rw [List.append_assoc, List.singleton_append, takeWhile_point hds.2, dropWhile_point hds.2]
    exact ⟨rfl, @takeWhile_append_of_head Char.isDigit [] rest (by simp) hdigit⟩
  | both hds hfs =>
    rw [List.append_assoc, List.cons_append, takeWhile_point hds.2, dropWhile_point hds.2]
    exact ⟨rfl, takeWhile_append_of_head hfs.2 hdigit⟩
  | fraction hfs => exact ⟨rfl, takeWhile_append_of_head hfs.2 hdigit⟩

end Unsigned

/-- A numeral is read whatever stops it, and whatever blanks are before it. -/
theorem Written.scan_append {front p rest : List Char} {n : Numeral} (h : Written p n)
    (hfront : ∀ c ∈ front, c ∈ blanks) (hrest : Stops rest) :
    scan (front ++ (p ++ rest)) = some n := by
  cases h with
  | intro hsign hunsigned =>
    obtain ⟨hwhole, hfraction⟩ := hunsigned.read hrest
    rw [List.append_assoc, scan_front hfront hsign hunsigned, hwhole, hfraction,
      hunsigned.parts_ne_nil, if_neg Bool.false_ne_true]

theorem Written.withoutBlanks_append {front p rest : List Char} {n : Numeral} (h : Written p n)
    (hfront : ∀ c ∈ front, c ∈ blanks) : withoutBlanks (front ++ (p ++ rest)) = p ++ rest := by
  cases h with
  | intro hsign hunsigned =>
    rw [List.append_assoc]
    exact Numeral.withoutBlanks_append hfront hsign hunsigned

theorem stops_nil : Stops [] := fun c hc => absurd hc (by simp)

/-- A text is one numeral at most. -/
theorem Written.unique {p : List Char} {m n : Numeral} (hm : Written p m) (hn : Written p n) :
    m = n := by
  have hfront : ∀ c ∈ ([] : List Char), c ∈ blanks := by simp
  have hscan := hm.scan_append hfront stops_nil
  rw [hn.scan_append hfront stops_nil] at hscan
  exact (Option.some.inj hscan).symm

/-! ## What is read is the longest numeral -/

section Scan

variable {text body rest unsigned whole fraction p q : List Char} {m n : Numeral}

/-- The point and the digits behind it. -/
def pointOf : List Char → List Char
  | '.' :: cs => '.' :: cs.takeWhile Char.isDigit
  | _ => []

/-- What the digits that are read from a text and the point between them take of it. -/
def unsignedOf (body : List Char) : List Char :=
  body.takeWhile Char.isDigit ++ pointOf (body.dropWhile Char.isDigit)

theorem isPrefix_unsignedOf (body : List Char) : unsignedOf body <+: body := by
  have hpoint : ∀ cs, pointOf cs <+: cs := by
    intro cs
    unfold pointOf
    split
    next cs => exact List.cons_prefix_cons.2 ⟨rfl, List.takeWhile_prefix _⟩
    next => exact List.nil_prefix
  conv => rhs; rw [← List.takeWhile_append_dropWhile (p := Char.isDigit) (l := body)]
  exact List.prefix_append_right_inj _ |>.2 (hpoint _)

/-- What is read is a numeral with the parts that are read, if one of them has a digit. -/
theorem unsigned_unsignedOf
    (h : ((body.takeWhile Char.isDigit).isEmpty &&
      (fractionOf (body.dropWhile Char.isDigit)).isEmpty) = false) :
    Unsigned (unsignedOf body) (body.takeWhile Char.isDigit)
      (fractionOf (body.dropWhile Char.isDigit)) := by
  have hwhole : ∀ c ∈ body.takeWhile Char.isDigit, c.isDigit = true :=
    fun c hc => List.mem_takeWhile_imp hc
  have hfraction := @isDigit_of_mem_fractionOf (body.dropWhile Char.isDigit)
  unfold unsignedOf
  generalize body.takeWhile Char.isDigit = ds at h hwhole
  generalize body.dropWhile Char.isDigit = tail at h hfraction
  by_cases htail : tail.head? = some '.'
  · obtain ⟨cs, rfl⟩ := List.head?_eq_some_iff.1 htail
    exact unsigned_pointed hwhole hfraction h
  · have hpoint : pointOf tail = [] := by
      unfold pointOf
      split
      next cs => exact absurd rfl htail
      next => rfl
    rw [fractionOf_eq_nil htail] at h ⊢
    rw [hpoint, List.append_nil]
    exact .whole ⟨by simpa using h, hwhole⟩

/-- A numeral that begins a text begins what is read of it, part by part. -/
theorem Unsigned.isPrefix (h : Unsigned unsigned whole fraction) (rest : List Char) :
    whole <+: (unsigned ++ rest).takeWhile Char.isDigit ∧
      fraction <+: fractionOf ((unsigned ++ rest).dropWhile Char.isDigit) ∧
      unsigned <+: unsignedOf (unsigned ++ rest) := by
  unfold unsignedOf
  cases h with
  | whole hds =>
    rw [List.takeWhile_append_of_pos hds.2, List.append_assoc]
    exact ⟨List.prefix_append _ _, List.nil_prefix, List.prefix_append _ _⟩
  | point hds =>
    rw [List.append_assoc, List.singleton_append, takeWhile_point hds.2, dropWhile_point hds.2]
    exact ⟨List.prefix_refl _, List.nil_prefix,
      (List.prefix_append_right_inj _).2 (List.cons_prefix_cons.2 ⟨rfl, List.nil_prefix⟩)⟩
  | both hds hfs =>
    rw [List.append_assoc, List.cons_append, takeWhile_point hds.2, dropWhile_point hds.2,
      fractionOf, pointOf, List.takeWhile_append_of_pos hfs.2]
    exact ⟨List.prefix_refl _, List.prefix_append _ _,
      (List.prefix_append_right_inj _).2 (List.cons_prefix_cons.2 ⟨rfl, List.prefix_append _ _⟩)⟩
  | fraction hfs =>
    have hpoint : (fraction ++ rest).takeWhile Char.isDigit =
        fraction ++ rest.takeWhile Char.isDigit :=
      List.takeWhile_append_of_pos hfs.2
    exact ⟨List.nil_prefix, ⟨_, hpoint.symm⟩,
      List.cons_prefix_cons.2 ⟨rfl, ⟨_, hpoint.symm⟩⟩⟩

theorem exists_sign (text : List Char) :
    ∃ sign, Sign sign (splitSign text).1 ∧ text = sign ++ (splitSign text).2 := by
  unfold splitSign
  split
  next cs => exact ⟨_, .plus, rfl⟩
  next cs => exact ⟨_, .minus, rfl⟩
  next => exact ⟨_, .none, rfl⟩

theorem exists_front (text : List Char) :
    ∃ front, (∀ c ∈ front, c ∈ blanks) ∧ text = front ++ withoutBlanks text :=
  ⟨text.takeWhile (· ∈ blanks), fun _ hc => by simpa using List.mem_takeWhile_imp hc,
    List.takeWhile_append_dropWhile.symm⟩

/-- What is read of a text that has an unsigned numeral after blanks and a sign. -/
theorem scan_of_unsigned {front sign : List Char} {negative : Bool}
    (hfront : ∀ c ∈ front, c ∈ blanks) (hsign : Sign sign negative)
    (h : Unsigned unsigned whole fraction) (rest : List Char) :
    scan (front ++ (sign ++ (unsigned ++ rest))) =
      some ⟨negative, (unsigned ++ rest).takeWhile Char.isDigit,
        fractionOf ((unsigned ++ rest).dropWhile Char.isDigit)⟩ := by
  obtain ⟨hwhole, hfraction, -⟩ := h.isPrefix rest
  have hparts := h.parts_ne_nil
  rw [scan_front hfront hsign h, if_neg]
  rw [Bool.and_eq_true, List.isEmpty_iff, List.isEmpty_iff]
  rintro ⟨hnone, hnone'⟩
  rw [hnone, List.prefix_nil] at hwhole
  rw [hnone', List.prefix_nil] at hfraction
  simp [hwhole, hfraction] at hparts

/-- A text that has a numeral at its start is read. -/
theorem exists_scan_of_written (h : Written p n) (hp : p <+: withoutBlanks text) :
    ∃ m, scan text = some m := by
  obtain ⟨front, hfront, htext⟩ := exists_front text
  obtain ⟨rest, hrest⟩ := hp
  cases h with
  | intro hsign hunsigned =>
    rw [htext, ← hrest, List.append_assoc]
    exact ⟨_, scan_of_unsigned hfront hsign hunsigned rest⟩

/-- A numeral that begins a text is no longer than the sign and what is read behind it. -/
theorem Written.length_le {sign : List Char} (h : Written q m) (hstart : q <+: text)
    (htext : text = sign ++ (splitSign text).2) :
    q.length ≤ (sign ++ unsignedOf (splitSign text).2).length := by
  obtain ⟨rest, hrest⟩ := hstart
  cases h with
  | @intro sign' unsigned whole fraction negative hsign hunsigned =>
    rw [List.append_assoc] at hrest
    -- the sign is the same, and the digits are read too
    have hbody : (splitSign text).2 = unsigned ++ rest := by
      rw [← hrest, hsign.splitSign_append fun c hc => (hunsigned.head c hc).2]
    rw [hbody, ← hrest, ← List.append_assoc, ← List.append_assoc] at htext
    have hlength := (hunsigned.isPrefix rest).2.2.length_le
    rw [List.append_cancel_right (List.append_cancel_right htext), hbody, List.length_append,
      List.length_append]
    omega

/-- What is read is a numeral that begins the text, and no other one is longer. -/
theorem leads_of_scan (h : scan text = some n) : Leads text n := by
  obtain ⟨sign, hsign, htext⟩ := exists_sign (withoutBlanks text)
  have hsplit : splitSign (text.dropWhile isBlank) =
      ((splitSign (withoutBlanks text)).1, (splitSign (withoutBlanks text)).2) := by
    rw [dropWhile_isBlank]
  rw [scan_of_split hsplit] at h
  split at h
  next => cases h
  next hparts =>
    cases h
    refine ⟨_, .intro hsign (unsigned_unsignedOf (Bool.eq_false_iff.2 hparts)), ?_,
      fun q m hq hstart => hq.length_le hstart htext⟩
    conv_rhs => rw [htext]
    exact (List.prefix_append_right_inj _).2 (isPrefix_unsignedOf _)

theorem LongestPrefix.unique (hm : LongestPrefix text p m) (hn : LongestPrefix text q n) :
    m = n := by
  have hlength : p.length = q.length :=
    Nat.le_antisymm (hn.longest p m hm.written hm.isPrefix) (hm.longest q n hn.written hn.isPrefix)
  have hsame : p = q :=
    (List.prefix_of_prefix_length_le hm.isPrefix hn.isPrefix (Nat.le_of_eq hlength)).eq_of_length
      hlength
  subst hsame
  exact hm.written.unique hn.written

/-- The numeral that is read from a text is the longest one that it begins with. -/
theorem scan_eq_some_iff : scan text = some n ↔ Leads text n := by
  refine ⟨leads_of_scan, ?_⟩
  rintro ⟨p, hp⟩
  obtain ⟨m, hscan⟩ := exists_scan_of_written hp.written hp.isPrefix
  obtain ⟨q, hq⟩ := leads_of_scan hscan
  rw [hscan, hp.unique hq]

theorem scan_eq_none_iff : scan text = none ↔ ∀ n, ¬Leads text n := by
  rw [Option.eq_none_iff_forall_ne_some]
  exact forall_congr' fun n => not_congr scan_eq_some_iff

end Scan

end LooseTypes.Numeral
