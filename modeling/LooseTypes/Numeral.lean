import LooseTypes.Binary64.Nearest

/-!
# Leading numerals

A text is read as a number by its longest beginning of the form

    sign? (digits ("." digits?)? | "." digits)

after leading blanks; what follows it is ignored, and there is no exponent form. The digits are
ASCII digits. A numeral of any length has a whole part, a nearest integer in range, and a nearest
binary64 number.

Unsigned 64-bit integers exceed the signed range, so they are held as canonical decimal text: no sign
and no leading zero. A text is read as one by the whole part of its leading numeral, clamped.
-/

namespace LooseTypes

/-- A number as it is written: its sign, and the digits before and after the point. -/
structure Numeral where
  negative : Bool
  whole : List Char
  fraction : List Char
  deriving DecidableEq, Repr

namespace Numeral

/-- The blanks that may stand before a numeral. -/
def isBlank (c : Char) : Bool :=
  c == ' ' || c == '\t' || c == '\n' || c == '\r' || c == '\x0b' || c == '\x0c'

/-- Takes a sign off; without one the number is not negative. -/
def splitSign : List Char → Bool × List Char
  | '+' :: cs => (false, cs)
  | '-' :: cs => (true, cs)
  | cs => (false, cs)

def fractionOf : List Char → List Char
  | '.' :: cs => cs.takeWhile Char.isDigit
  | _ => []

/-- The leading numeral of a text, if it has one. -/
def scan (text : List Char) : Option Numeral :=
  let (negative, body) := splitSign (text.dropWhile isBlank)
  let whole := body.takeWhile Char.isDigit
  let fraction := fractionOf (body.dropWhile Char.isDigit)
  if whole.isEmpty && fraction.isEmpty then none else some ⟨negative, whole, fraction⟩

def decimal (n : Numeral) : Decimal := ⟨ofDigits (n.whole ++ n.fraction), -n.fraction.length⟩

/-- The whole part of the number, toward zero. -/
def truncate (n : Numeral) : Int := if n.negative then -ofDigits n.whole else ofDigits n.whole

def toInt64 (n : Numeral) : Int64 := Int64.ofIntClamp n.truncate

/-- The nearest binary64 number; the sign of a zero is kept, and large numbers are infinite. -/
def toBinary64 (n : Numeral) : Binary64 := Binary64.ofDecimal n.negative n.decimal

end Numeral

/-! ## Unsigned integers as text -/

def uint64Max : Nat := 0xffffffffffffffff

/-- The canonical text of an integer clamped into the unsigned 64-bit range. -/
def uint64Text (n : Int) : List Char := digits (min n.toNat uint64Max)

/-- The canonical text of the leading numeral of a text; without one it is zero. -/
def clampDecimal (text : List Char) : List Char :=
  match Numeral.scan text with
  | some n => uint64Text n.truncate
  | none => ['0']

end LooseTypes
