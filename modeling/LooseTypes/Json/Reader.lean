import LooseTypes.Json.Basic
import LooseTypes.Json.Lexer

/-!
# Reading documents

A machine takes the tokens of a text one after the other. Its stack holds the arrays and objects that
are still open, each with what it has so far; at most `maxDepth` may be open at a time.
-/

namespace LooseTypes.Json

/-- The greatest number of arrays and objects that may be open at a time. -/
def maxDepth : Nat := 127

/-- An open array or object in which a document is due. What it has so far has the last one first. -/
inductive Frame where
  | array (items : List Json)
  | object (members : List (String × Json)) (name : String)

/-- What is due next, and what is open around it. -/
inductive State where
  | value (stack : List Frame)
  | firstItem (stack : List Frame)
  | afterItem (items : List Json) (stack : List Frame)
  | firstName (stack : List Frame)
  | nextName (members : List (String × Json)) (stack : List Frame)
  | colon (members : List (String × Json)) (name : String) (stack : List Frame)
  | afterMember (members : List (String × Json)) (stack : List Frame)
  | done (j : Json)

namespace State

/-- Gives a document to the innermost open frame. -/
def put (j : Json) : List Frame → State
  | [] => .done j
  | .array items :: stack => .afterItem (j :: items) stack
  | .object members name :: stack => .afterMember ((name, j) :: members) stack

def begin (stack : List Frame) : Token → Option State
  | .null => some (put .null stack)
  | .bool b => some (put (.bool b) stack)
  | .int n => some (put (.int n) stack)
  | .float negative rank => some (put (.float negative rank) stack)
  | .str s => some (put (.str s) stack)
  | .openArray => if stack.length < maxDepth then some (.firstItem stack) else none
  | .openObject => if stack.length < maxDepth then some (.firstName stack) else none
  | .closeArray | .closeObject | .comma | .colon => none

def step : State → Token → Option State
  | .value stack, t => begin stack t
  | .firstItem stack, .closeArray => some (put (.array []) stack)
  | .firstItem stack, t => begin (.array [] :: stack) t
  | .afterItem items stack, .comma => some (.value (.array items :: stack))
  | .afterItem items stack, .closeArray => some (put (.array items.reverse) stack)
  | .firstName stack, .closeObject => some (put (.object []) stack)
  | .firstName stack, .str s => some (.colon [] s stack)
  | .nextName members stack, .str s => some (.colon members s stack)
  | .colon members name stack, .colon => some (.value (.object members name :: stack))
  | .afterMember members stack, .comma => some (.nextName members stack)
  | .afterMember members stack, .closeObject => some (put (.object members.reverse) stack)
  | _, _ => none

def result? : State → Option Json
  | .done j => some j
  | _ => none

end State

def ofTokens? (tokens : List Token) : Option Json :=
  (tokens.foldlM State.step (.value [])).bind State.result?

def parse? (text : String) : Option Json := (tokens? text.toList).bind ofTokens?

end LooseTypes.Json
