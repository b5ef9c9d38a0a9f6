import LooseTypes.Binary64.Layout
import LooseTypes.Text.Printable
import LooseTypes.Value.Basic

/-!
# Values for inspection

A text that shows the kind and the content of a value, as in `List({0: Int(1), "a": Null})`. Texts
stand in it between double quotes, and every character of them can be seen: the common controls, the
quote and the backslash have short escapes, and other characters without a glyph are written by their
code point, as in `\u{1b}`.
-/

namespace LooseTypes

/-! ## Quoted text -/

/-- The escape of a character by its code point in lower-case hexadecimal. -/
def codePointEscape (c : Char) : List Char :=
  ['\\', 'u', '\x7b'] ++ Nat.toDigits 16 c.toNat ++ ['\x7d']

def quotedChar (c : Char) : List Char :=
  match c with
  | '\x00' => ['\\', '0']
  | '\t' => ['\\', 't']
  | '\r' => ['\\', 'r']
  | '\n' => ['\\', 'n']
  | '"' => ['\\', '"']
  | '\\' => ['\\', '\\']
  | c => if isPrintable c then [c] else codePointEscape c

def quoted (text : String) : String :=
  String.ofList ('"' :: (text.toList.flatMap quotedChar ++ ['"']))

/-! ## Values -/

/-- A key for inspection: an index as it is, a name quoted. -/
def Key.inspect : Key → String
  | .index i => (Key.index i).text
  | .name s => quoted s

def Binary64.inspect : Binary64 → String
  | .nan => "NaN"
  | .infinite false => "inf"
  | .infinite true => "-inf"
  | .finite negative rank => String.ofList (Layout.inspected.finite negative rank)

mutual

def Value.inspect : Value → String
  | .null => "Null"
  | .bool b => "Bool(" ++ (if b then "true" else "false") ++ ")"
  | .int n => "Int(" ++ String.ofList (intText n.toInt) ++ ")"
  | .float x => "Float(" ++ x.inspect ++ ")"
  | .str s => "Str(" ++ quoted s ++ ")"
  | .list ⟨⟨entries⟩, _, _⟩ => "List(\x7b" ++ ", ".intercalate (inspectEntries entries) ++ "\x7d)"
  | .object o => "Object(" ++ o.className ++ ")"

def inspectEntries : List (Key × Value) → List String
  | [] => []
  | (key, v) :: entries => (key.inspect ++ ": " ++ v.inspect) :: inspectEntries entries

end

end LooseTypes
