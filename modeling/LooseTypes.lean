import LooseTypes.Value.Inspect
import LooseTypes.Session
import LooseTypes.Main
import LooseTypes.Proofs.Spec.Target
import LooseTypes.Proofs.Spec.Fault
import LooseTypes.Proofs.Text.Trim
import LooseTypes.Proofs.Uint64
import LooseTypes.Proofs.Coercion.Outcome
import LooseTypes.Proofs.Command.Check
import LooseTypes.Proofs.KeyedList.Entries
import LooseTypes.Proofs.Coercion.Fields
import LooseTypes.Proofs.Coercion.Inhabits
import LooseTypes.Proofs.Coercion.Soundness
import LooseTypes.Proofs.Binary64.Nearest
import LooseTypes.Proofs.Binary64.Shortest
import LooseTypes.Proofs.Binary64.Digits
import LooseTypes.Proofs.Binary64.Magnitudes
import LooseTypes.Proofs.Json.Number
import LooseTypes.Proofs.Json.Reread
import LooseTypes.Proofs.Json.Lexer
import LooseTypes.Proofs.Json.Document
import LooseTypes.Proofs.Json.Reader
import LooseTypes.Proofs.KeyedList.Sequential
import LooseTypes.Proofs.Value.Interchange
import LooseTypes.Proofs.Value.Converted
import LooseTypes.Proofs.Binary64.Whole
import LooseTypes.Proofs.Command.Coerce
import LooseTypes.Proofs.Command.Unsigned
import LooseTypes.Proofs.Coercion.TargetSet
import LooseTypes.Proofs.Command.Result
import LooseTypes.Proofs.Value.Lists
import LooseTypes.Proofs.Json.Accepted
import LooseTypes.Proofs.Value.Members
import LooseTypes.Proofs.Command.Fields
import LooseTypes.Proofs.Command.Failure
import LooseTypes.Proofs.Command.Report
import LooseTypes.Proofs.Coercion.Elements
import LooseTypes.Proofs.KeyedList.Push
import LooseTypes.Proofs.Coercion.Integers
import LooseTypes.Proofs.Coercion.LeadingZeros
import LooseTypes.Proofs.Binary64.Order
import LooseTypes.Proofs.Uint64.Clamping
import LooseTypes.Proofs.Binary64.Arithmetic
import LooseTypes.Proofs.Binary64.Places
import LooseTypes.Proofs.Coercion.Floats
import LooseTypes.Proofs.Binary64.Text
import LooseTypes.Proofs.Coercion.ThroughText
import LooseTypes.Proofs.Numeral.Grammar
import LooseTypes.Proofs.Text.Bytes
import LooseTypes.Proofs.Numeral.Scanner
import LooseTypes.Proofs.Coercion.Saturation
import LooseTypes.Proofs.Binary64.Rounded
import LooseTypes.Proofs.Coercion.TextFloats
import LooseTypes.Proofs.Key
import LooseTypes.Proofs.KeyedList.Addressed
import LooseTypes.Proofs.Spec.Text
import LooseTypes.Proofs.Command.Defaults
import LooseTypes.Proofs.KeyedList.Replaced
import LooseTypes.Proofs.Coercion.Trimming
import LooseTypes.Proofs.Value.Equality
import LooseTypes.Proofs.Coercion.Equality
import LooseTypes.Proofs.Coercion.Levels
