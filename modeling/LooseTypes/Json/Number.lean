import LooseTypes.Json.Basic
import LooseTypes.Numeral

/-!
# JSON numbers

The grammar of numbers: an optional minus sign, a whole part without leading zeros, and optionally a
fraction and an exponent. A whole number in the signed 64-bit range is an integer, except for `-0`.

Any other number is a product in binary64 arithmetic. Its digits make a significand as long as this
fits in 64 bits; whole digits beyond that are only counted, and digits of a fraction are left out. The
significand becomes a binary64 number, and is multiplied or divided by a power of ten that is one too.
So there are up to two roundings, and more if the exponent is far below the range, and the result need
not be the nearest number. A product beyond the finite numbers is refused.
-/

namespace LooseTypes.Json

/-! ## The grammar -/

def areDigits (cs : List Char) : Bool := !cs.isEmpty && cs.all Char.isDigit

/-- Whether digits are a whole part: not empty, and zero leads only alone. -/
def isWholePart : List Char → Bool
  | [] => false
  | ['0'] => true
  | c :: _ => c != '0'

/-- Splits the fraction from what follows it; a point needs digits after it. -/
def fraction? : List Char → Option (List Char × List Char)
  | '.' :: cs =>
    let ds := cs.takeWhile Char.isDigit
    if ds.isEmpty then none else some (ds, cs.dropWhile Char.isDigit)
  | cs => some ([], cs)

def exponentDigits? (cs : List Char) : Option Nat :=
  if areDigits cs then some (ofDigits cs) else none

/-- The exponent that ends a number; there may be none. -/
def exponent? : List Char → Option (Option Int)
  | [] => some none
  | c :: cs =>
    if c == 'e' || c == 'E' then
      match cs with
      | '+' :: ds => (exponentDigits? ds).map fun n => some n
      | '-' :: ds => (exponentDigits? ds).map fun n => some (-n)
      | ds => (exponentDigits? ds).map fun n => some n
    else none

structure Parts where
  negative : Bool
  whole : List Char
  /-- The digits after the point; without a point there are none. -/
  fraction : List Char
  exponent : Option Int

def splitMinus : List Char → Bool × List Char
  | '-' :: cs => (true, cs)
  | cs => (false, cs)

def parts? (text : List Char) : Option Parts := do
  let (negative, body) := splitMinus text
  let whole := body.takeWhile Char.isDigit
  guard (isWholePart whole)
  let (fraction, rest) ← fraction? (body.dropWhile Char.isDigit)
  let exponent ← exponent? rest
  return ⟨negative, whole, fraction, exponent⟩

/-! ## The value -/

/-- Takes digits into a significand as long as it fits in 64 bits. Gives it with the other digits. -/
def significand (n : Nat) : List Char → Nat × List Char
  | [] => (n, [])
  | c :: cs =>
    let next := 10 * n + (c.toNat - '0'.toNat)
    if next ≤ uint64Max then significand next cs else (n, c :: cs)

def tenRank (k : Nat) : Nat := Binary64.natRank (Nat.pow 10 k)

/-- Divides by `10 ^ 308` a number of times, until nothing is left. -/
def divideDown : Nat → Nat → Nat
  | 0, rank => rank
  | n + 1, rank => if rank = 0 then 0 else divideDown n (Binary64.divRank rank (tenRank 308))

/-- The rank of a significand with a power of ten. Powers of ten go up to `10 ^ 308`, so a smaller
number than `10 ^ -308` is reached by several divisions, and a greater power is beyond all. -/
def scaledRank (significand : Nat) (exponent : Int) : Nat :=
  let rank := Binary64.natRank significand
  if 0 ≤ exponent then
    if exponent ≤ 308 then Binary64.mulRank rank (tenRank exponent.toNat)
    else if rank = 0 then 0
    else Binary64.rankLimit
  else
    let k := (-exponent).toNat
    let times := (k - 1) / 308
    Binary64.divRank (divideDown times rank) (tenRank (k - 308 * times))

def float? (negative : Bool) (significand : Nat) (exponent : Int) : Option Token :=
  match Binary64.ofRank negative (scaledRank significand exponent) with
  | .finite negative rank => some (.float negative rank)
  | _ => none

/-- A number without fraction and exponent, of which some digits are only counted. -/
def integer? (negative : Bool) (significand counted : Nat) : Option Token :=
  match int64? (if negative then -significand else significand) with
  | some i =>
    if counted = 0 && !(negative && significand == 0) then some (.int i)
    else float? negative significand counted
  | none => float? negative significand counted

namespace Parts

/-- The significand and the exponent of all digits. -/
def scaled (p : Parts) : Nat × Int :=
  let (n, counted) := significand 0 p.whole
  let (m, left) := significand n p.fraction
  (m, counted.length + left.length - p.fraction.length + p.exponent.getD 0)

def token? (p : Parts) : Option Token :=
  if p.fraction.isEmpty && p.exponent.isNone then
    let (n, counted) := significand 0 p.whole
    integer? p.negative n counted.length
  else float? p.negative p.scaled.1 p.scaled.2

end Parts

def number? (text : List Char) : Option Token := (parts? text).bind Parts.token?

end LooseTypes.Json
