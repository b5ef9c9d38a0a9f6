import LooseTypes.Proofs.Numeral.Grammar
import LooseTypes.Proofs.Text.Bytes

/-!
# Scanning numerals byte by byte

A text is scanned by the positions of its bytes, and the parts of its numeral are cut out of it
between two of these (`scanBytes?`). What is stepped over are blanks, a sign, digits and a point, all
of ASCII, so that the cuts are between characters whatever the text is, and the scan is that of its
characters (`scanBytes?_eq`): it has the longest numeral the text begins with (`scan_longest_match`).
-/

namespace LooseTypes.Numeral

def isBlankByte (b : UInt8) : Bool :=
  b == 0x20 || b == 0x09 || b == 0x0A || b == 0x0D || b == 0x0B || b == 0x0C

def isDigitByte (b : UInt8) : Bool := 0x30 ≤ b && b ≤ 0x39

/-- The position behind a sign at a position, and whether it is a minus sign. -/
def signAt (bytes : ByteArray) (pos : Nat) : Bool × Nat :=
  if bytes[pos]? == some '-'.toUInt8 then (true, pos + 1)
  else if bytes[pos]? == some '+'.toUInt8 then (false, pos + 1)
  else (false, pos)

/-- The digits behind a point at a position, if they can be cut out of the text. -/
def fractionAt? (text : String) (pos : Nat) : Option String :=
  if text.toUTF8[pos]? == some '.'.toUInt8 then
    slice? text (pos + 1) (skipBytes isDigitByte text.toUTF8 (pos + 1))
  else some ""

/-- The leading numeral of a text, if it has one; nothing at all if the text would have to be cut
within a character. -/
def scanBytes? (text : String) : Option (Option Numeral) := do
  let bytes := text.toUTF8
  let (negative, start) := signAt bytes (skipBytes isBlankByte bytes 0)
  let point := skipBytes isDigitByte bytes start
  let whole ← slice? text start point
  let fraction ← fractionAt? text point
  if whole.isEmpty && fraction.isEmpty then some none
  else some (some ⟨negative, whole.toList, fraction.toList⟩)

theorem sameKind_blank : SameKind isBlankByte isBlank where
  ascii := forall_ascii (by decide +kernel)
  byte_lt b hb := by
    simp only [isBlankByte, Bool.or_eq_true, beq_iff_eq] at hb
    rcases hb with ((((rfl | rfl) | rfl) | rfl) | rfl) | rfl <;> decide
  char_lt c hc := by
    simp only [isBlank, Bool.or_eq_true, beq_iff_eq] at hc
    rcases hc with ((((rfl | rfl) | rfl) | rfl) | rfl) | rfl <;> decide

theorem sameKind_digit : SameKind isDigitByte Char.isDigit where
  ascii := forall_ascii (by decide +kernel)
  byte_lt b hb := by
    simp only [isDigitByte, Bool.and_eq_true, decide_eq_true_eq, UInt8.le_iff_toNat_le] at hb
    exact Nat.lt_of_le_of_lt hb.2 (by decide)
  char_lt c hc := by
    simp only [Char.isDigit, Bool.and_eq_true, decide_eq_true_eq, UInt32.le_iff_toNat_le] at hc
    exact Nat.lt_of_le_of_lt hc.2 (by decide)

section At

variable {text : String} {pos : Nat} {before after : List Char}

/-- A character of ASCII is recognised by its byte. -/
theorem getElem?_beq (h : At text pos before after) {c : Char} (hc : c.toNat < 128) :
    (text.toUTF8[pos]? == some c.toUInt8) = (after.head? == some c) := by
  rw [h.getElem?_eq]
  cases after with
  | nil => rfl
  | cons d rest => exact (sameKind_beq hc).leadByte_eq d

/-- Behind a character of ASCII the next one is at the next position. -/
theorem at_next {c : Char} {rest : List Char} (h : At text pos before (c :: rest))
    (hc : c.toNat < 128) : At text (pos + 1) (before ++ [c]) rest := by
  have hone : [c].utf8Encode.size = 1 :=
    (sameKind_beq hc).size_utf8Encode (List.forall_mem_singleton.2 (beq_self_eq_true c))
  rw [← hone]
  exact At.advance h

/-- A sign is taken off the characters at a position. -/
theorem at_signAt (h : At text pos before after) :
    (signAt text.toUTF8 pos).1 = (splitSign after).1 ∧
      ∃ front, At text (signAt text.toUTF8 pos).2 front (splitSign after).2 := by
  unfold signAt
  rw [getElem?_beq h (by decide), getElem?_beq h (by decide)]
  by_cases hminus : after.head? = some '-'
  · obtain ⟨rest, rfl⟩ := List.head?_eq_some_iff.1 hminus
    exact ⟨rfl, _, at_next h (by decide)⟩
  by_cases hplus : after.head? = some '+'
  · obtain ⟨rest, rfl⟩ := List.head?_eq_some_iff.1 hplus
    exact ⟨rfl, _, at_next h (by decide)⟩
  rw [splitSign_eq_self fun c hc => ⟨fun hc' => hplus (hc' ▸ hc), fun hc' => hminus (hc' ▸ hc)⟩,
    if_neg (by simpa using hminus), if_neg (by simpa using hplus)]
  exact ⟨rfl, before, h⟩

/-- The digits at a position are cut out. -/
theorem slice?_digits (h : At text pos before after) :
    slice? text pos (skipBytes isDigitByte text.toUTF8 pos) =
      some (String.ofList (after.takeWhile Char.isDigit)) := by
  have hsplit :
      At text pos before (after.takeWhile Char.isDigit ++ after.dropWhile Char.isDigit) := by
    rwa [List.takeWhile_append_dropWhile]
  exact hsplit.slice?_eq (h.skip sameKind_digit)

theorem fractionAt?_eq (h : At text pos before after) :
    fractionAt? text pos = some (String.ofList (fractionOf after)) := by
  unfold fractionAt?
  rw [getElem?_beq h (by decide)]
  by_cases hpoint : after.head? = some '.'
  · obtain ⟨rest, rfl⟩ := List.head?_eq_some_iff.1 hpoint
    exact slice?_digits (at_next h (by decide))
  · rw [fractionOf_eq_nil hpoint, if_neg (by simpa using hpoint), String.ofList_nil]

end At

/-- No text is cut within a character, and the scan of its bytes is that of its characters. -/
theorem scanBytes?_eq (text : String) : scanBytes? text = some (scan text.toList) := by
  obtain ⟨hnegative, front, hbody⟩ := at_signAt ((at_zero text).skip sameKind_blank)
  have hwhole := slice?_digits hbody
  have hfraction := fractionAt?_eq (hbody.skip sameKind_digit)
  unfold scanBytes?
  simp only [hnegative, hwhole, hfraction, Option.bind_eq_bind, Option.bind_some]
  rw [scan_of_split (Prod.eta _).symm, isEmpty_ofList, isEmpty_ofList, String.toList_ofList,
    String.toList_ofList]
  split
  · rfl
  · rfl

/-- A text is read by the longest numeral that it begins with after its blanks. Reading it cuts the
text between characters only. -/
theorem scan_longest_match (text : String) :
    (∀ n, scan text.toList = some n ↔ Leads text.toList n) ∧
      ((scan text.toList).isSome = true ↔
        ∃ p n, Written p n ∧ p <+: withoutBlanks text.toList) ∧
      scanBytes? text = some (scan text.toList) := by
  refine ⟨fun n => scan_eq_some_iff, ⟨?_, ?_⟩, scanBytes?_eq text⟩
  · intro h
    obtain ⟨n, hn⟩ := Option.isSome_iff_exists.1 h
    obtain ⟨p, hp⟩ := scan_eq_some_iff.1 hn
    exact ⟨p, n, hp.written, hp.isPrefix⟩
  · rintro ⟨p, n, hp, hprefix⟩
    obtain ⟨m, hm⟩ := exists_scan_of_written hp hprefix
    rw [hm, Option.isSome_some]

end LooseTypes.Numeral
