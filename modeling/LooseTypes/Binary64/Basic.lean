/-!
# Binary64 numbers

A double-precision number without arithmetic: NaN, an infinity, or a sign and the rank of its
magnitude. Ranks count the finite magnitudes from zero upwards, so neighbouring ranks are
neighbouring numbers. Each magnitude is a whole number of units, and `unitsPerOne` units make one.

A number is determined by its exact value and its sign, and all NaNs are one. The interchange
encoding is `ofBits` and `toBits`.
-/

namespace LooseTypes

/-- One more than the largest finite rank; this word encodes infinity. -/
def Binary64.rankLimit : Nat := 0x7ff0000000000000

inductive Binary64 where
  | nan
  | infinite (negative : Bool)
  | finite (negative : Bool) (rank : Fin Binary64.rankLimit)
  deriving DecidableEq, Repr

namespace Binary64

def zero (negative : Bool) : Binary64 := .finite negative ⟨0, by decide⟩

instance : Inhabited Binary64 := ⟨zero false⟩

/-- The units that make one; a unit is the smallest positive magnitude. -/
def unitsPerOne : Nat := 1 <<< 1074

/-- Neighbouring magnitudes around this rank are `1 <<< step rank` units apart. -/
def step (rank : Nat) : Nat := (rank >>> 52) - 1

/-- The magnitude at a rank, in units. -/
def units (rank : Nat) : Nat := (rank - (step rank <<< 52)) <<< step rank

/-- The number at a rank, with ranks that are not finite standing for infinity. -/
def ofRank (negative : Bool) (rank : Nat) : Binary64 :=
  if h : rank < rankLimit then .finite negative ⟨rank, h⟩ else .infinite negative

/-- Numeric equality: NaN equals nothing, and the zeros are equal. -/
def numEq : Binary64 → Binary64 → Bool
  | .infinite a, .infinite b => a == b
  | .finite a r, .finite b s => r == s && (a == b || r.val == 0)
  | _, _ => false

def isFinite : Binary64 → Bool
  | .finite _ _ => true
  | _ => false

/-- Numerically different from zero; NaN is. -/
def isNonzero (x : Binary64) : Bool := !x.numEq (zero false)

/-- The whole part of a finite number, toward zero; zero for the others. -/
def truncate : Binary64 → Int
  | .finite true r => -Int.ofNat (units r / unitsPerOne)
  | .finite false r => Int.ofNat (units r / unitsPerOne)
  | _ => 0

/-- Reads the interchange encoding: a sign bit above the rank; larger ranks than infinity's are NaN. -/
def ofBits (word : UInt64) : Binary64 :=
  let negative := 0x8000000000000000 ≤ word.toNat
  let magnitude := word.toNat % 0x8000000000000000
  if magnitude ≤ rankLimit then ofRank negative magnitude else .nan

/-- The interchange encoding; NaN is the quiet one without a sign. -/
def toBits : Binary64 → UInt64
  | .nan => 0x7ff8000000000000
  | .infinite negative => signBit negative ||| 0x7ff0000000000000
  | .finite negative rank => signBit negative ||| UInt64.ofNat rank
where
  signBit (negative : Bool) : UInt64 := if negative then 0x8000000000000000 else 0

theorem numEq_comm (x y : Binary64) : x.numEq y = y.numEq x := by
  cases x <;> cases y <;> grind [numEq]

theorem numEq_self_iff {x : Binary64} : x.numEq x = true ↔ x ≠ .nan := by
  cases x <;> simp [numEq]

end Binary64

end LooseTypes
