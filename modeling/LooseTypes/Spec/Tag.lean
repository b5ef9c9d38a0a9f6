import LooseTypes.Value.Basic

/-!
# Target types

The type that a spec names by its first token: one of five scalar types, or `array`. Names are exact.
Each type has a zero, the value that null is coerced to.
-/

namespace LooseTypes

/-- A type whose values are not lists. -/
inductive Scalar where
  | int
  | float
  | bool
  | string
  | uint64
  deriving DecidableEq, Repr

inductive Tag where
  | scalar (type : Scalar)
  | array
  deriving DecidableEq, Repr

namespace Scalar

def name : Scalar → String
  | .int => "int"
  | .float => "float"
  | .bool => "bool"
  | .string => "string"
  | .uint64 => "uint64"

def ofName? (name : String) : Option Scalar :=
  match name with
  | "int" => some .int
  | "float" => some .float
  | "bool" => some .bool
  | "string" => some .string
  | "uint64" => some .uint64
  | _ => none

theorem ofName?_eq_some_iff {name : String} {type : Scalar} :
    ofName? name = some type ↔ name = type.name := by
  constructor
  · unfold ofName?
    split <;> intro h <;> cases h <;> rfl
  · rintro rfl
    cases type <;> rfl

end Scalar

namespace Tag

def name : Tag → String
  | .scalar type => type.name
  | .array => "array"

def ofName? (name : String) : Option Tag :=
  if name = Tag.array.name then some .array else (Scalar.ofName? name).map .scalar

/-- Every type, in the order in which they are listed. -/
def all : List Tag :=
  [.scalar .int, .scalar .float, .scalar .bool, .scalar .string, .array, .scalar .uint64]

/-- The value that null is coerced to. -/
def zero : Tag → Value
  | .scalar .int => .int 0
  | .scalar .float => .float (.zero false)
  | .scalar .bool => .bool false
  | .scalar .string => .str ""
  | .scalar .uint64 => .str "0"
  | .array => .list .empty

theorem name_scalar_ne_array (type : Scalar) : type.name ≠ Tag.array.name := by
  cases type <;> decide

theorem ofName?_eq_some_iff {name : String} {tag : Tag} :
    ofName? name = some tag ↔ name = tag.name := by
  unfold ofName?
  split
  next h =>
    cases tag with
    | array => simp [h]
    | scalar type => simpa [h, Tag.name] using (name_scalar_ne_array type).symm
  next h =>
    cases tag with
    | array => simpa using h
    | scalar type => simp [Scalar.ofName?_eq_some_iff, Tag.name]

end Tag

end LooseTypes
