import LooseTypes.Coercion.Trace
import LooseTypes.Value.Inspect

/-!
# The log

Each event has a level, the name of the part of the program that it comes from, and a text. A filter
lets the events of a level and above through, either of all parts or of those with one beginning.
-/

namespace LooseTypes

/-- How important an event is; a filter at `off` lets nothing through. -/
inductive Level where
  | trace
  | debug
  | info
  | warn
  | error
  | off
  deriving DecidableEq, Repr

namespace Level

def rank : Level → Nat
  | .trace => 0
  | .debug => 1
  | .info => 2
  | .warn => 3
  | .error => 4
  | .off => 5

def ofName? : String → Option Level
  | "trace" => some .trace
  | "debug" => some .debug
  | "info" => some .info
  | "warn" => some .warn
  | "error" => some .error
  | "off" => some .off
  | _ => none

def label : Level → String
  | .trace => "TRACE"
  | .debug => "DEBUG"
  | .info => "INFO"
  | .warn => "WARN"
  | .error => "ERROR"
  | .off => "OFF"

end Level

namespace Event

def level : Event → Level
  | .coercing _ _ => .trace
  | .rejected _ | .readingFile _ => .debug

/-- The part of the program that the event comes from. -/
def target : Event → String
  | .coercing _ _ => "sp_coerce::dispatch"
  | .rejected _ => "sp_spec::grammar"
  | .readingFile _ => "sp_cli::commands"

def text : Event → String
  | .coercing spec input => "coerce spec=" ++ quoted spec ++ " input=" ++ quoted input.name
  | .rejected e => "rejected spec err=" ++ e.message
  | .readingFile path => "reading data file path=" ++ quoted path

def line (e : Event) : String := e.level.label ++ " " ++ e.target ++ ": " ++ e.text

end Event

structure Filter where
  target : String
  level : Level
  deriving DecidableEq, Repr

namespace Filter

/-- Reads a filter: a level for all parts, or the beginning of a part's name, an equals sign and a
level. -/
def ofText? (text : String) : Option Filter :=
  match text.toList.splitOn '=' with
  | [level] => (Level.ofName? (String.ofList level)).map (⟨"", ·⟩)
  | [target, level] => (Level.ofName? (String.ofList level)).map (⟨String.ofList target, ·⟩)
  | _ => none

def admits (f : Filter) (e : Event) : Bool :=
  f.level.rank ≤ e.level.rank && f.target.toList.isPrefixOf e.target.toList

end Filter

/-- The lines of a log; without a filter there are none. -/
def logLines (filter : Option Filter) (events : List Event) : List String :=
  match filter with
  | some f => (events.filter f.admits).map Event.line
  | none => []

end LooseTypes
