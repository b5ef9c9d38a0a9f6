import LooseTypes.Command.Source
import LooseTypes.Coercion.Basic
import LooseTypes.Value.Interchange

/-!
# What the commands do

A coercion reads the specs first, then the data, and then coerces the data; the first failure on this
way is its failure. The result is JSON.

A check reads and checks each spec without any data. The line for a good one names its type and the
zero that a missing field becomes.
-/

namespace LooseTypes

/-! ## Coercion -/

/-- First and last code point of each range of the Unicode property White_Space. -/
def whiteSpaceRanges : List (Nat × Nat) :=
  [(0x09, 0x0d), (0x20, 0x20), (0x85, 0x85), (0xa0, 0xa0), (0x1680, 0x1680), (0x2000, 0x200a),
    (0x2028, 0x2029), (0x202f, 0x202f), (0x205f, 0x205f), (0x3000, 0x3000)]

/-- The blanks that may stand before the specs of fields. They are more than those before a numeral and
than those that `trimmed` takes away. -/
def isWhiteSpace (c : Char) : Bool :=
  whiteSpaceRanges.any fun range => range.1 ≤ c.toNat && c.toNat ≤ range.2

/-- Whether a specs argument is JSON: its first character that is not blank is an opening brace. -/
def isSpecsObject (argument : String) : Bool :=
  (argument.toList.dropWhile isWhiteSpace).head? == some '\x7b'

/-- The spec set that an argument gives: a JSON object of field specs, or a single spec. -/
def SpecSet.ofArgument (argument : String) : Except CommandError SpecSet :=
  if isSpecsObject argument then
    match Value.ofJsonText? argument with
    | some specs => (SpecSet.ofValue specs).mapError .spec
    | none => .error (.json (.specs argument))
  else .ok (.single argument)

/-- Coerces the data that one argument names by the specs that the other gives. -/
def coerceArguments (inputs : Inputs) (data specs : String) : Traced CommandError String := do
  let specs ← .ofExcept (SpecSet.ofArgument specs)
  let text ← (Source.ofArgument data).read inputs
  let some v := Value.ofJsonText? text | .ofExcept (.error (.json (.data text)))
  let result ← (v.coerceBy specs).mapError .spec
  let some json := result.encode? | .ofExcept (.error (.json .result))
  return json

/-! ## Check -/

def checkSpec (text : String) : Traced SpecError String := do
  let s ← .ofSpec (Spec.parse text)
  .ofSpec s.check
  let zero := s.tag.zero.encode?.getD ""
  return "ok " ++ text ++ " -> " ++ s.tag.name ++ " (default " ++ zero ++ ")"

structure CheckReport where
  events : List Event
  lines : List String
  allOk : Bool

def errorLine (message : String) : String := "error: " ++ message

def checkSpecs (texts : List String) : CheckReport :=
  let results := texts.map checkSpec
  { events := results.flatMap (·.events)
    lines := results.map fun r =>
      match r.outcome with
      | .ok line => line
      | .error e => errorLine e.message
    allOk := results.all (·.outcome.isOk) }

end LooseTypes
