import LooseTypes.Coercion.Trace
import LooseTypes.Value.Conversion

/-!
# Coercion

Each scalar type checks its modifiers and converts the value. `array` makes a list of the value and,
if it has an element spec, coerces each element by it; the element spec is checked first, so a bad
one is reported for an empty list too. Each coercion by a spec notes an event.

Several fields of a value are coerced at once, each by its own spec. A value without the field counts
as null there. The result has one entry for each field, in the order of the specs; a field that comes
again replaces the earlier result. The first malformed spec ends the whole.
-/

namespace LooseTypes

/-! ## By a single spec -/

namespace Spec

def coerceInt (s : Spec) (v : Value) : Except SpecError Int64 := do
  s.expectNoModifiers
  return v.toInt64

def coerceFloat (s : Spec) (v : Value) : Except SpecError Binary64 := do
  s.expectNoModifiers
  return v.toBinary64

def coerceBool (s : Spec) (v : Value) : Except SpecError Bool := do
  s.expectNoModifiers
  return v.toBool

/-- Coerces to a text, and applies the modifiers in order. -/
def coerceString (s : Spec) (v : Value) : Except SpecError String := do
  let modifiers ← s.textModifiers
  return String.ofList (modifiers.foldl apply v.toText.toList)
where
  apply (text : List Char) : TextModifier → List Char
    | .trim => trimmed text

def coerceUint64 (s : Spec) (v : Value) : Except SpecError String := do
  s.expectNoModifiers
  return v.toUint64

def coerceScalar (type : Scalar) (s : Spec) (v : Value) : Except SpecError Value :=
  match type with
  | .int => return .int (← s.coerceInt v)
  | .float => return .float (← s.coerceFloat v)
  | .bool => return .bool (← s.coerceBool v)
  | .string => return .str (← s.coerceString v)
  | .uint64 => return .str (← s.coerceUint64 v)

end Spec

def ElementSpec.coerce (e : ElementSpec) (v : Value) : Traced SpecError Value := do
  .emit (.coercing e.toSpec.text v.kind)
  .ofExcept (e.toSpec.coerceScalar e.type v)

namespace Spec

def coerceArray (s : Spec) (v : Value) : Traced SpecError (KeyedList Value) := do
  match ← .ofSpec s.element? with
  | none => return v.toList
  | some e => v.toList.mapValuesM e.coerce

def coerce (s : Spec) (v : Value) : Traced SpecError Value := do
  .emit (.coercing s.text v.kind)
  match s.tag with
  | .scalar type => .ofExcept (s.coerceScalar type v)
  | .array => return .list (← s.coerceArray v)

end Spec

def Value.coerce (v : Value) (spec : String) : Traced SpecError Value := do
  let s ← .ofSpec (Spec.parse spec)
  s.coerce v

/-! ## By specs for fields -/

/-- One spec for a whole value, or one for each field. -/
inductive SpecSet where
  | single (spec : String)
  | fields (specs : List (Key × String))
  deriving DecidableEq, Repr

/-- Reads a spec set from a value: a text is a single spec, and a list of texts holds the specs of
fields under its keys. -/
def SpecSet.ofValue : Value → Except SpecError SpecSet
  | .str spec => .ok (.single spec)
  | .list items => return .fields (← items.toList.mapM fieldSpec)
  | v => .error ⟨.invalidSpecs v.kind, none⟩
where
  fieldSpec : Key × Value → Except SpecError (Key × String)
    | (key, .str spec) => .ok (key, spec)
    | (key, v) => .error ⟨.nonStringSpec key.text v.kind, none⟩

namespace Value

def coerceFields (v : Value) (specs : List (Key × String)) : Traced SpecError (KeyedList Value) :=
  specs.foldlM (fun result (key, spec) => return result.insert key (← (v.field key).coerce spec)) .empty

def coerceBy (v : Value) : SpecSet → Traced SpecError Value
  | .single spec => v.coerce spec
  | .fields specs => return .list (← v.coerceFields specs)

end Value

end LooseTypes
