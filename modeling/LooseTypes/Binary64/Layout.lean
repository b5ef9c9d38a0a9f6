import LooseTypes.Binary64.Nearest

/-!
# Written forms of binary64 numbers

`shortest tie rank` is the decimal number with the fewest digits that rounds to the number at a
rank, and of those the nearest to it. `tie` decides between two that are equally near.

A `Layout` holds the decisions of a written form: which exponents are written positionally, how a
whole number and an exponent are marked, and which of two equally near decimals is taken. Every form
uses the shortest digits that read back. `sixPlaces` is the form with six digits after the point,
rounded from the exact value.
-/

namespace LooseTypes

namespace Binary64

/-! ## The shortest decimal that reads back -/

/-- The exponent of ten of the leading digit of a positive magnitude. -/
def leadingExponent (rank : Nat) : Int :=
  let u := units rank
  if unitsPerOne ≤ u then Int.ofNat ((digits (u / unitsPerOne)).length - 1)
  else -Int.ofNat (digits ((unitsPerOne - 1) / u)).length

/-- Whether a decimal number rounds to the magnitude at a rank. -/
def readsBack (rank : Nat) (d : Decimal) : Bool :=
  ofDecimal false d == ofRank false rank

/-- The magnitude itself as a decimal number: units are powers of two, so the expansion ends. -/
def exactDecimal (rank : Nat) : Decimal := ⟨units rank * Nat.pow 5 1074, -1074⟩

/-- A coefficient of `count` digits, or the carry to `10 ^ count`, which is one digit. -/
def withDigits (count : Nat) (coefficient : Nat) (exponent : Int) : Decimal :=
  if coefficient = Nat.pow 10 count then ⟨1, exponent + count⟩ else ⟨coefficient, exponent⟩

/-- The nearer neighbour of a magnitude among the decimal numbers of `count` digits that reads back. -/
def neighbour? (tie : Tie) (rank : Nat) (count : Nat) : Option Decimal :=
  let exponent := leadingExponent rank + 1 - count
  let n := units rank * Nat.pow 10 (-exponent).toNat
  let d := unitsPerOne * Nat.pow 10 exponent.toNat
  let near := roundDiv tie n d
  let far := if near = n / d then n / d + 1 else n / d
  [near, far].map (withDigits count · exponent) |>.find? (readsBack rank)

/-- The shortest decimal number that reads back. Seventeen digits are always enough; the exact
expansion stands behind them, so that the result reads back by construction. -/
def shortest (tie : Tie) (rank : Nat) : Decimal :=
  if rank = 0 then ⟨0, 0⟩
  else ((List.range' 1 17).findSome? (neighbour? tie rank)).getD (exactDecimal rank)

theorem readsBack_of_neighbour? {tie : Tie} {rank count : Nat} {d : Decimal}
    (h : neighbour? tie rank count = some d) : readsBack rank d = true :=
  List.find?_some h

end Binary64

/-! ## Layouts -/

structure Layout where
  /-- Decides between two equally near shortest decimals. -/
  tie : Tie
  /-- The least exponent of the leading digit that is written positionally, if there is one. -/
  lowest : Option Int
  /-- The greatest exponent of the leading digit that is written positionally, if there is one. -/
  highest : Option Int
  /-- What follows the digits of a whole number in positional form. -/
  wholeMark : List Char
  /-- What stands before a non-negative exponent. -/
  exponentMark : List Char
  deriving Repr

namespace Layout

/-- Text without exponents and without a mark on whole numbers. -/
def plain : Layout := ⟨.up, none, none, [], []⟩

/-- Text for inspection: positional from `10 ^ -4` to below `10 ^ 16`. -/
def inspected : Layout := ⟨.up, some (-4), some 15, ['.', '0'], []⟩

/-- Text for interchange: positional from `10 ^ -5` to below `10 ^ 16`. -/
def interchange : Layout := ⟨.even, some (-5), some 15, ['.', '0'], ['+']⟩

def isPositional (l : Layout) (e : Int) : Bool :=
  l.lowest.all (· ≤ e) && l.highest.all (e ≤ ·)

/-- Digits followed by the rest after a point, if there is any. -/
def pointed (whole fraction : List Char) : List Char :=
  if fraction.isEmpty then whole else whole ++ '.' :: fraction

def magnitude (l : Layout) (d : Decimal) : List Char :=
  let ds := digits d.coefficient
  let e := d.exponent + ds.length - 1
  if l.isPositional e then
    if 0 ≤ d.exponent then ds ++ List.replicate d.exponent.toNat '0' ++ l.wholeMark
    else if 0 ≤ e then pointed (ds.take (e.toNat + 1)) (ds.drop (e.toNat + 1))
    else '0' :: '.' :: (List.replicate (-e - 1).toNat '0' ++ ds)
  else
    let mark := if 0 ≤ e then l.exponentMark else []
    pointed (ds.take 1) (ds.drop 1) ++ 'e' :: (mark ++ intText e)

def finite (l : Layout) (negative : Bool) (rank : Nat) : List Char :=
  let text := l.magnitude (Binary64.shortest l.tie rank)
  if negative then '-' :: text else text

end Layout

namespace Binary64

/-- The text of a finite number with six places, ties to even. -/
def sixPlaces (negative : Bool) (rank : Nat) : List Char :=
  let millionths := roundDiv .even (units rank * 1000000) unitsPerOne
  let fraction := digits (millionths % 1000000)
  let text := digits (millionths / 1000000) ++
    '.' :: (List.replicate (6 - fraction.length) '0' ++ fraction)
  if negative then '-' :: text else text

end Binary64

end LooseTypes
