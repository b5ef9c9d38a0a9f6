import LooseTypes.Value.Basic
import LooseTypes.Binary64.Layout
import LooseTypes.Numeral

/-!
# Loose conversions

What each value is as an integer, a number, a truth value, a text, an unsigned integer and a list.
Every conversion is total. Texts count by their leading numeral, lists and objects as numbers are
zero, and only the texts `""` and `"0"` are false.

`trimmed` takes the characters space, tab, line feed, carriage return, NUL and vertical tab from both
ends of a text. Form feeds and other blanks stay.
-/

namespace LooseTypes

def isTrimmed (c : Char) : Bool :=
  c == ' ' || c == '\t' || c == '\n' || c == '\r' || c == '\x00' || c == '\x0b'

/-- The text without the characters at its ends. -/
def trimmed (text : List Char) : List Char :=
  ((text.dropWhile isTrimmed).reverse.dropWhile isTrimmed).reverse

def Binary64.text : Binary64 → String
  | .nan => "NAN"
  | .infinite false => "INF"
  | .infinite true => "-INF"
  | .finite negative rank => String.ofList (Layout.plain.finite negative rank)

namespace Value

/-- The whole part of a finite number wraps around. -/
def toInt64 : Value → Int64
  | .int n => n
  | .float x => Int64.ofInt x.truncate
  | .bool b => if b then 1 else 0
  | .str s => ((Numeral.scan s.toList).map Numeral.toInt64).getD 0
  | .null | .list _ | .object _ => 0

def toBinary64 : Value → Binary64
  | .float x => x
  | .int n => .ofInt n.toInt
  | .bool b => .ofInt (if b then 1 else 0)
  | .str s => ((Numeral.scan s.toList).map Numeral.toBinary64).getD (.zero false)
  | .null | .list _ | .object _ => .zero false

def toBool : Value → Bool
  | .bool b => b
  | .int n => n != 0
  | .float x => x.isNonzero
  | .str s => !(s == "" || s == "0")
  | .list items => !items.isEmpty
  | .null => false
  | .object _ => true

def toText : Value → String
  | .str s => s
  | .list _ => "Array"
  | .object o => o.display.getD ""
  | .int n => String.ofList (intText n.toInt)
  | .float x => x.text
  | .bool b => if b then "1" else ""
  | .null => ""

/-- The text of an unsigned 64-bit integer. A finite number counts by its text with six places and
other numbers are zero; all else counts by its text, trimmed and without leading zeros. -/
def toUint64 : Value → String
  | .float (.finite negative rank) => String.ofList (clampDecimal (Binary64.sixPlaces negative rank))
  | .float _ => "0"
  | v => String.ofList (clampDecimal ((trimmed v.toText.toList).dropWhile (· == '0')))

/-- A scalar is the only element of its list. -/
def toList : Value → KeyedList Value
  | .list items => items
  | .null | .object _ => .empty
  | v => .ofList [v]

end Value

end LooseTypes
