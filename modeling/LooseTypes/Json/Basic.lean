import LooseTypes.Binary64.Layout

/-!
# JSON

A JSON document as it is written: the members of an object are in order, and a name may come more
than once. Numbers are 64-bit integers or finite binary64 numbers, and the written form of the latter
always shows that it is one. The compact text of a document is that of its tokens with nothing
between them.
-/

namespace LooseTypes

inductive Json where
  | null
  | bool (b : Bool)
  | int (n : Int64)
  | float (negative : Bool) (rank : Fin Binary64.rankLimit)
  | str (s : String)
  | array (items : List Json)
  | object (members : List (String × Json))
  deriving Inhabited

namespace Json

/-! ## Depth -/

mutual

/-- How deep arrays and objects stand in each other. -/
def depth : Json → Nat
  | .array items => itemsDepth items + 1
  | .object members => membersDepth members + 1
  | _ => 0

def itemsDepth : List Json → Nat
  | [] => 0
  | j :: items => max j.depth (itemsDepth items)

def membersDepth : List (String × Json) → Nat
  | [] => 0
  | (_, j) :: members => max j.depth (membersDepth members)

end

/-! ## Tokens -/

inductive Token where
  | openArray
  | closeArray
  | openObject
  | closeObject
  | comma
  | colon
  | null
  | bool (b : Bool)
  | int (n : Int64)
  | float (negative : Bool) (rank : Fin Binary64.rankLimit)
  | str (s : String)
  deriving DecidableEq, Repr

def hexDigit (n : Nat) : Char := Nat.digitChar n

/-- One character of a string. Quotes, backslashes and controls are escaped. -/
def escapedChar (c : Char) : List Char :=
  match c with
  | '"' => ['\\', '"']
  | '\\' => ['\\', '\\']
  | '\x08' => ['\\', 'b']
  | '\x0c' => ['\\', 'f']
  | '\n' => ['\\', 'n']
  | '\r' => ['\\', 'r']
  | '\t' => ['\\', 't']
  | c =>
    if c.toNat < 0x20 then ['\\', 'u', '0', '0', hexDigit (c.toNat / 16), hexDigit (c.toNat % 16)]
    else [c]

def Token.text : Token → List Char
  | .openArray => ['[']
  | .closeArray => [']']
  | .openObject => ['\x7b']
  | .closeObject => ['\x7d']
  | .comma => [',']
  | .colon => [':']
  | .null => ['n', 'u', 'l', 'l']
  | .bool true => ['t', 'r', 'u', 'e']
  | .bool false => ['f', 'a', 'l', 's', 'e']
  | .int n => intText n.toInt
  | .float negative rank => Layout.interchange.finite negative rank
  | .str s => '"' :: (s.toList.flatMap escapedChar ++ ['"'])

/-! ## Writing documents -/

mutual

def tokens : Json → List Token
  | .null => [.null]
  | .bool b => [.bool b]
  | .int n => [.int n]
  | .float negative rank => [.float negative rank]
  | .str s => [.str s]
  | .array items => .openArray :: (itemTokens items ++ [.closeArray])
  | .object members => .openObject :: (memberTokens members ++ [.closeObject])

/-- The tokens of some items, with commas between them. -/
def itemTokens : List Json → List Token
  | [] => []
  | [j] => j.tokens
  | j :: items => j.tokens ++ .comma :: itemTokens items

def memberTokens : List (String × Json) → List Token
  | [] => []
  | [(name, j)] => .str name :: .colon :: j.tokens
  | (name, j) :: members => .str name :: .colon :: (j.tokens ++ .comma :: memberTokens members)

end

/-- The compact text of a document. -/
def render (j : Json) : String := String.ofList (j.tokens.flatMap Token.text)

end Json

end LooseTypes
