import LooseTypes.Value.Basic
import LooseTypes.Json.Reader

/-!
# Values as JSON

An array is read as a list under the indices from zero, and an object as a list under the keys that
its names address, where a name that comes again replaces the earlier member in place. A list is
written as an array if its keys are the indices from zero in order, and as an object otherwise; an
opaque object is its text, or an empty object without one. NaN and the infinities are written as null.
A text can be refused by the decoder. The encoder may fail too, but has no reason to.
-/

namespace LooseTypes

namespace Value

mutual

/-- The value that a document stands for. -/
def ofJson : Json → Value
  | .null => .null
  | .bool b => .bool b
  | .int n => .int n
  | .float negative rank => .float (.finite negative rank)
  | .str s => .str s
  | .array items => .list (.ofList (ofItems items))
  | .object members => .list (.ofEntries (ofMembers members))

def ofItems : List Json → List Value
  | [] => []
  | j :: items => ofJson j :: ofItems items

def ofMembers : List (String × Json) → List (Key × Value)
  | [] => []
  | (name, j) :: members => (.ofText name, ofJson j) :: ofMembers members

end

mutual

def toJson : Value → Json
  | .null => .null
  | .bool b => .bool b
  | .int n => .int n
  | .float (.finite negative rank) => .float negative rank
  | .float _ => .null
  | .str s => .str s
  | .list ⟨⟨entries⟩, index, next⟩ =>
    if (KeyedList.mk ⟨entries⟩ index next).isSequential then .array (toItems entries)
    else .object (toMembers entries)
  | .object o =>
    match o.display with
    | some s => .str s
    | none => .object []

def toItems : List (Key × Value) → List Json
  | [] => []
  | (_, v) :: entries => v.toJson :: toItems entries

def toMembers : List (Key × Value) → List (String × Json)
  | [] => []
  | (key, v) :: entries => (key.text, v.toJson) :: toMembers entries

end

def ofJsonText? (text : String) : Option Value := (Json.parse? text).map ofJson

def jsonText (v : Value) : String := v.toJson.render

/-- Encodes a value. Keys that have no text would be refused, and every key of a value has one. -/
def encode? (v : Value) : Option String := some v.jsonText

end Value

end LooseTypes
