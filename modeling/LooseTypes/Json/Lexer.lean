import LooseTypes.Json.Number

/-!
# Reading tokens

Between tokens stand spaces, tabs, line feeds and carriage returns. Numbers and words are read as far
as their characters go, and then have to be a number or one of `null`, `true` and `false`. In a
string the escapes are the ones of the JSON grammar; halves of a surrogate pair have to stand together.
-/

namespace LooseTypes.Json

/-- The blanks between tokens. -/
def isBlank (c : Char) : Bool := c == ' ' || c == '\t' || c == '\n' || c == '\r'

def isNumberChar (c : Char) : Bool :=
  c.isDigit || c == '-' || c == '+' || c == '.' || c == 'e' || c == 'E'

/-- The value of a hexadecimal digit of either case. -/
def hexValue? (c : Char) : Option Nat :=
  if c.isDigit then some (c.toNat - '0'.toNat)
  else if 'a' ≤ c ∧ c ≤ 'f' then some (c.toNat - 'a'.toNat + 10)
  else if 'A' ≤ c ∧ c ≤ 'F' then some (c.toNat - 'A'.toNat + 10)
  else none

def hexUnit? (a b c d : Char) : Option Nat := do
  return ((← hexValue? a) * 16 + (← hexValue? b)) * 256 + ((← hexValue? c) * 16 + (← hexValue? d))

def shortEscape? : Char → Option Char
  | '"' => some '"'
  | '\\' => some '\\'
  | '/' => some '/'
  | 'b' => some '\x08'
  | 'f' => some '\x0c'
  | 'n' => some '\n'
  | 'r' => some '\r'
  | 't' => some '\t'
  | _ => none

def isHighSurrogate (n : Nat) : Bool := 0xd800 ≤ n && n < 0xdc00

def isLowSurrogate (n : Nat) : Bool := 0xdc00 ≤ n && n < 0xe000

def pairedChar (high low : Nat) : Char :=
  Char.ofNat (0x10000 + (high - 0xd800) * 0x400 + (low - 0xdc00))

/-- Splits a string after its opening quote from what follows its closing one. A backslash takes the
next character with it. -/
def splitString? : List Char → Option (List Char × List Char)
  | [] => none
  | '"' :: rest => some ([], rest)
  | '\\' :: c :: rest => (splitString? rest).map fun (body, rest) => ('\\' :: c :: body, rest)
  | c :: rest => (splitString? rest).map fun (body, rest) => (c :: body, rest)

/-- The characters that the body of a string denotes. -/
def unescape? : List Char → Option (List Char)
  | [] => some []
  | '\\' :: 'u' :: a :: b :: c :: d :: rest => do
    let unit ← hexUnit? a b c d
    if isLowSurrogate unit then none
    else if isHighSurrogate unit then
      match rest with
      | '\\' :: 'u' :: a :: b :: c :: d :: rest => do
        let low ← hexUnit? a b c d
        guard (isLowSurrogate low)
        return pairedChar unit low :: (← unescape? rest)
      | _ => none
    else return Char.ofNat unit :: (← unescape? rest)
  | '\\' :: c :: rest => return (← shortEscape? c) :: (← unescape? rest)
  | c :: rest => do
    guard (0x20 ≤ c.toNat)
    return c :: (← unescape? rest)

/-- The string after an opening quote, and what follows its closing one. -/
def string? (cs : List Char) : Option (Token × List Char) := do
  let (body, rest) ← splitString? cs
  return (.str (String.ofList (← unescape? body)), rest)

def word? (text : List Char) : Option Token :=
  [Token.null, .bool true, .bool false].find? (·.text == text)

def mark? : Char → Option Token
  | '[' => some .openArray
  | ']' => some .closeArray
  | '\x7b' => some .openObject
  | '\x7d' => some .closeObject
  | ',' => some .comma
  | ':' => some .colon
  | _ => none

/-- The token at the start of a text, and what follows it. -/
def token? : List Char → Option (Token × List Char)
  | [] => none
  | c :: cs =>
    if c = '"' then string? cs
    else if isNumberChar c then
      (number? (c :: cs.takeWhile isNumberChar)).map (·, cs.dropWhile isNumberChar)
    else if c.isLower then
      (word? (c :: cs.takeWhile Char.isLower)).map (·, cs.dropWhile Char.isLower)
    else (mark? c).map (·, cs)

theorem length_of_splitString? {cs body rest : List Char}
    (h : splitString? cs = some (body, rest)) : rest.length ≤ cs.length := by
  fun_induction splitString? cs generalizing body rest <;>
    simp_all only [Option.map_eq_some_iff, Prod.mk.injEq, List.length_cons, reduceCtorEq,
      Option.some.injEq] <;> grind

theorem length_dropWhile_le (p : Char → Bool) (cs : List Char) :
    (cs.dropWhile p).length ≤ cs.length := (List.dropWhile_sublist p).length_le

theorem length_of_token? {cs rest : List Char} {t : Token} (h : token? cs = some (t, rest)) :
    rest.length < cs.length := by
  unfold token? at h
  split at h
  next => cases h
  next c cs =>
    rw [List.length_cons, Nat.lt_succ_iff]
    split at h
    next =>
      simp only [string?, Option.bind_eq_bind, Option.bind_eq_some_iff, Option.pure_def,
        Option.some.injEq, Prod.mk.injEq] at h
      obtain ⟨_, hs, _, _, _, rfl⟩ := h
      exact length_of_splitString? hs
    next =>
      split at h
      next =>
        obtain ⟨_, _, he⟩ := Option.map_eq_some_iff.1 h
        cases he
        exact length_dropWhile_le _ _
      next =>
        split at h
        all_goals
          obtain ⟨_, _, he⟩ := Option.map_eq_some_iff.1 h
          cases he
        · exact length_dropWhile_le _ _
        · exact Nat.le_refl _

def tokens? (text : List Char) : Option (List Token) :=
  match _h : text.dropWhile isBlank with
  | [] => some []
  | c :: cs =>
    match _ht : token? (c :: cs) with
    | none => none
    | some (t, rest) => (tokens? rest).map (t :: ·)
termination_by text.length
decreasing_by
  have := length_of_token? _ht
  have := length_dropWhile_le isBlank text
  grind

end LooseTypes.Json
