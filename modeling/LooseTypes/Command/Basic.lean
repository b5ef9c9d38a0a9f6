import LooseTypes.Command.Actions
import LooseTypes.Command.Log

/-!
# The command line

The arguments select a command, and running it gives a report: an exit code and what goes to standard
output and standard error. Log lines come before the failure they lead to.
-/

namespace LooseTypes

inductive Command where
  | help
  | version
  | coerce (data specs : String)
  | coerceUsage
  | check (specs : List String)
  | checkUsage
  | unknown (name : String)
  deriving DecidableEq, Repr

structure Report where
  exitCode : Nat
  stdout : String
  stderr : String
  deriving DecidableEq, Repr

def unlines (lines : List String) : String := String.join (lines.map (· ++ "\n"))

namespace Command

def ofArguments : List String → Command
  | [] => .help
  | "coerce" :: [data, specs] => .coerce data specs
  | "coerce" :: _ => .coerceUsage
  | ["check"] => .checkUsage
  | "check" :: specs => .check specs
  | name :: _ =>
    if name ∈ ["help", "--help", "-h"] then .help
    else if name ∈ ["version", "--version", "-V"] then .version
    else .unknown name

def helpText : String := unlines [
  "SafeParams - coerce untrusted input into declared types",
  "",
  "Usage: safeparams <command> [args]",
  "",
  "Commands:",
  "  coerce <DATA> <SPECS>  Coerce JSON data and print the result as JSON",
  "  check <SPEC>...        Validate spec strings",
  "  help                   Show this help message",
  "  version                Show version information",
  "",
  "Specs:",
  "  int, float, bool, string, string.trim, uint64, array, array.<spec>",
  "",
  "Exit codes:",
  "  0  success",
  "  1  malformed spec",
  "  2  usage or input error",
  "",
  "Examples:",
  "  safeparams coerce '\"  42abc\"' int",
  "  safeparams coerce @request.json '\x7b\"id\":\"uint64\",\"tags\":\"array.string.trim\"\x7d'",
  "  echo '[1,\"x\",2.5]' | safeparams coerce - array.int",
  "  safeparams check string.trim array.array",
  "",
  "Set RUST_LOG=trace to log each coercion to stderr."]

def versionText : String := "safeparams 0.1.0\n"

def coerceUsageText : String := unlines [
  "Usage: safeparams coerce <DATA> <SPECS>",
  "",
  "DATA is JSON text, @path to read a file, or - for stdin.",
  "SPECS is a spec string, or a JSON object of field specs."]

def checkUsageText : String := unlines ["Usage: safeparams check <SPEC>..."]

def run (inputs : Inputs) (filter : Option Filter) (c : Command) (wording : Wording := none) :
    Report :=
  match c with
  | .help => ⟨0, helpText, ""⟩
  | .version => ⟨0, versionText, ""⟩
  | .coerce data specs =>
    let r := coerceArguments inputs data specs
    let log := logLines filter r.events
    match r.outcome with
    | .ok json => ⟨0, unlines [json], unlines log⟩
    | .error e => ⟨e.exitCode, "", unlines (log ++ [errorLine (e.message wording)])⟩
  | .coerceUsage => ⟨2, "", coerceUsageText⟩
  | .check specs =>
    let r := checkSpecs specs
    ⟨if r.allOk then 0 else 1, unlines r.lines, unlines (logLines filter r.events)⟩
  | .checkUsage => ⟨2, "", checkUsageText⟩
  | .unknown name => ⟨2, helpText, unlines ["Unknown command: " ++ name, ""]⟩

end Command

end LooseTypes
