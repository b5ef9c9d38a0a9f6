import LooseTypes.Coercion.Trace

/-!
# Inputs and failures of a command

An argument names the text of the data: `-` is all of standard input, `@path` a file, and anything
else is the text itself. What is read has to be UTF-8.

A command fails on a malformed spec, on a source that cannot be read, and on what the library for JSON
refuses. Each failure has a message and an exit code; exit code 1 stands for a malformed spec alone.
The words of the library at the end of a message are its own, so they are a parameter (`Wording`).
-/

namespace LooseTypes

/-! ## Failures -/

inductive ReadFailure where
  | notUtf8
  /-- The system's own words. -/
  | system (message : String)
  deriving DecidableEq, Repr

def ReadFailure.message : ReadFailure → String
  | .notUtf8 => "stream did not contain valid UTF-8"
  | .system message => message

/-- What the library for JSON refuses: to decode a text, or to encode the result. -/
inductive Refusal where
  | data (text : String)
  | specs (text : String)
  | result
  deriving DecidableEq, Repr

def Refusal.name : Refusal → String
  | .data _ => "data"
  | .specs _ => "specs"
  | .result => "result"

/-- What the library for JSON says about what it refuses. Where nothing is known of it, a message ends
before its words. -/
abbrev Wording := Option (Refusal → String)

inductive CommandError where
  | spec (error : SpecError)
  | file (path : String) (failure : ReadFailure)
  | stdin (failure : ReadFailure)
  | json (refusal : Refusal)
  deriving DecidableEq, Repr

namespace CommandError

def message (e : CommandError) (wording : Wording := none) : String :=
  match e with
  | .spec error => error.message
  | .file path failure => "cannot read `" ++ path ++ "`: " ++ failure.message
  | .stdin failure => "cannot read stdin: " ++ failure.message
  | .json refusal =>
    let words := (wording.map fun words => ": " ++ words refusal).getD ""
    "invalid JSON in " ++ refusal.name ++ words

def exitCode : CommandError → Nat
  | .spec _ => 1
  | .file _ _ | .stdin _ | .json _ => 2

theorem exitCode_eq_one_iff {e : CommandError} : e.exitCode = 1 ↔ ∃ error, e = .spec error := by
  cases e <;> simp [exitCode]

end CommandError

/-! ## Sources -/

inductive Source where
  | stdin
  | file (path : String)
  | literal (text : String)
  deriving DecidableEq, Repr

/-- What can be read while a command runs. -/
structure Inputs where
  stdin : Except ReadFailure ByteArray
  file : String → Except ReadFailure ByteArray

/-- Bytes stand for a source that gives them without failing. -/
instance : Coe ByteArray (Except ReadFailure ByteArray) := ⟨.ok⟩

namespace Source

def ofArgument (argument : String) : Source :=
  if argument = "-" then .stdin
  else
    match argument.toList with
    | '@' :: path => .file (String.ofList path)
    | _ => .literal argument

def decodeText (bytes : ByteArray) : Except ReadFailure String :=
  match String.fromUTF8? bytes with
  | some text => .ok text
  | none => .error .notUtf8

def read (inputs : Inputs) : Source → Traced CommandError String
  | .stdin => .ofExcept ((inputs.stdin.bind decodeText).mapError .stdin)
  | .file path => do
    .emit (.readingFile path)
    .ofExcept (((inputs.file path).bind decodeText).mapError (.file path))
  | .literal text => return text

end Source

end LooseTypes
