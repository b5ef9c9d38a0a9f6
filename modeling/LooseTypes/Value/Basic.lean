import LooseTypes.KeyedList.Basic
import LooseTypes.Binary64.Basic

/-!
# Values

A loosely typed value: null, a scalar, a text, a keyed list of values, or an opaque object. Of an
object only its class and its text, if it has one, can be seen; its identity tells it from others.

Values of different kinds are different. Numbers are compared as numbers, so a NaN equals nothing and
the zeros are equal. Texts and lists are compared by content, entry by entry in order; of objects
nothing but the identity is compared.
-/

namespace LooseTypes

/-- An opaque object. Two occurrences are the same object if they have one identity. -/
structure Object where
  identity : Nat
  className : String
  /-- The text form, if the object has one. -/
  display : Option String
  deriving DecidableEq, Repr

inductive Value where
  | null
  | bool (b : Bool)
  | int (n : Int64)
  | float (x : Binary64)
  | str (s : String)
  | list (items : KeyedList Value)
  | object (o : Object)

inductive Kind where
  | null
  | bool
  | int
  | float
  | string
  | array
  | object
  deriving DecidableEq, Repr

def Kind.name : Kind → String
  | .null => "null"
  | .bool => "bool"
  | .int => "int"
  | .float => "float"
  | .string => "string"
  | .array => "array"
  | .object => "object"

namespace Value

instance : Inhabited Value := ⟨.null⟩

def kind : Value → Kind
  | .null => .null
  | .bool _ => .bool
  | .int _ => .int
  | .float _ => .float
  | .str _ => .string
  | .list _ => .array
  | .object _ => .object

def str? : Value → Option String
  | .str s => some s
  | _ => none

def list? : Value → Option (KeyedList Value)
  | .list items => some items
  | _ => none

def isNull : Value → Bool
  | .null => true
  | _ => false

/-- The value in a field: what a list holds under the key, and null in all other cases. -/
def field (v : Value) (key : Key) : Value := (v.list?.bind (·.get? key)).getD .null

end Value

mutual

def Value.equal : Value → Value → Bool
  | .null, .null => true
  | .bool a, .bool b => a == b
  | .int a, .int b => a == b
  | .float a, .float b => a.numEq b
  | .str a, .str b => a == b
  | .list ⟨⟨as⟩, _, _⟩, .list ⟨⟨bs⟩, _, _⟩ => entriesEqual as bs
  | .object a, .object b => a.identity == b.identity
  | _, _ => false

/-- Whether two lists have equal keys and values in the same order. -/
def entriesEqual : List (Key × Value) → List (Key × Value) → Bool
  | [], [] => true
  | (k, a) :: as, (l, b) :: bs => k == l && a.equal b && entriesEqual as bs
  | _, _ => false

end

end LooseTypes
