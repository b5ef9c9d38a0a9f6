import LooseTypes.Decimal
import LooseTypes.Binary64.Basic

/-!
# The nearest binary64 number

`roundDiv tie n d` is the whole number nearest to `n / d`; `tie` decides a value that lies halfway
between two whole numbers.

`ofRatio` rounds an exact quotient to the nearest number, ties to the even rank, and overflows to
infinity. `ofDecimal` does the same for a decimal number of any length and any exponent. The product
and the quotient of two magnitudes are rounded in the same way.
-/

namespace LooseTypes

/-! ## Rounding a quotient -/

/-- Where a value halfway between two whole numbers goes. -/
inductive Tie where
  | even
  | up
  deriving DecidableEq, Repr

/-- Whether a tie above the whole number `q` stays at `q`. -/
def Tie.staysAt : Tie → Nat → Bool
  | .even, q => q % 2 == 0
  | .up, _ => false

def roundDiv (tie : Tie) (n d : Nat) : Nat :=
  let q := n / d
  let r := 2 * (n % d)
  if r < d || (r == d && tie.staysAt q) then q else q + 1

theorem roundDiv_eq_or (tie : Tie) (n d : Nat) :
    roundDiv tie n d = n / d ∨ roundDiv tie n d = n / d + 1 := by
  unfold roundDiv
  dsimp only
  split
  · exact .inl rfl
  · exact .inr rfl

/-- An exact quotient is not rounded. -/
theorem roundDiv_of_dvd {tie : Tie} {n d : Nat} (hd : 0 < d) (h : n % d = 0) :
    roundDiv tie n d = n / d := by
  simp [roundDiv, h, hd]

namespace Binary64

/-! ## Numbers -/

/-- The rank nearest to `num / den` units. -/
def nearestRank (num den : Nat) : Nat :=
  let shift := (num / den).log2 - 52
  (shift <<< 52) + roundDiv .even num (den <<< shift)

def ofRatio (negative : Bool) (num den : Nat) : Binary64 :=
  ofRank negative (nearestRank (num * unitsPerOne) den)

def ofInt (n : Int) : Binary64 := ofRatio (n < 0) n.natAbs 1

/-- The number nearest to a decimal number. Exponents far outside the range need no power of ten:
beyond `10 ^ 400` all is infinite, and a number below `10 ^ -400` is nearest to zero. -/
def ofDecimal (negative : Bool) (d : Decimal) : Binary64 :=
  if d.coefficient = 0 then zero negative
  else if 400 < d.exponent then .infinite negative
  else if d.exponent < -Int.ofNat (d.coefficient.log2 + 400) then zero negative
  else ofRatio negative d.num d.den

/-! ## Arithmetic on magnitudes -/

/-- The rank of the magnitude nearest to a whole number. -/
def natRank (n : Nat) : Nat := nearestRank (n * unitsPerOne) 1

def mulRank (r s : Nat) : Nat := nearestRank (units r * units s) unitsPerOne

def divRank (r s : Nat) : Nat := nearestRank (units r * unitsPerOne) (units s)

end Binary64

end LooseTypes
