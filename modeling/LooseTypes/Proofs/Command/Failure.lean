import LooseTypes.Proofs.Coercion.Fields
import LooseTypes.Proofs.Command.Coerce

/-!
# Which failure the coercion command reports

Three things can go wrong, one after the other: the specs cannot be read, the data cannot, or the
checks of the specs fail in the coercion (`verdict_of_coerceArguments`). The values in the data do
not matter. So a field spec that is no text is reported for all data, and a text that is no good spec
only for data that are JSON (`coerceArguments_first_failure`); for other data the failure of the data
comes before it (`coerceArguments_bad_data_before_bad_spec`).
-/

namespace LooseTypes

/-! ## The verdict on a spec set -/

/-- What the checks of the specs give, one after the other. -/
def SpecSet.verdict : SpecSet → Except SpecError Unit
  | .single text => Spec.verdict text
  | .fields specs => forM specs fun field => Spec.verdict field.2

namespace Value

theorem verdict_of_coerceFields_forM (v : Value) (specs : List (Key × String)) :
    (do let _ ← (v.coerceFields specs).outcome; return ()) =
      forM specs fun field => Spec.verdict field.2 := by
  induction specs using List.reverseRecOn with
  | nil => rfl
  | append_singleton specs last ih =>
    obtain ⟨key, spec⟩ := last
    rw [outcome_coerceFields_concat, List.forM_append, ← ih]
    simp only [bind_assoc, pure_bind, List.forM_cons, List.forM_nil, ← (v.field key).verdict_of_coerce]

/-- Whatever the value, its coercion is the verdict on the spec set once the result is forgotten. -/
theorem verdict_of_coerceBy (v : Value) (set : SpecSet) :
    (do let _ ← (v.coerceBy set).outcome; return ()) = set.verdict := by
  cases set with
  | single text => exact v.verdict_of_coerce text
  | fields specs =>
    rw [SpecSet.verdict, ← v.verdict_of_coerceFields_forM, coerceBy, Traced.outcome_bind]
    simp only [Traced.outcome_pure, bind_assoc]
    rfl

end Value

/-! ## The first failure -/

/-- The success or failure of the command, with the text forgotten. -/
theorem verdict_of_coerceArguments (inputs : Inputs) (data specs : String) :
    (do let _ ← (coerceArguments inputs data specs).outcome; return ()) = (do
      let set ← SpecSet.ofArgument specs
      let _ ← dataValue inputs data
      set.verdict.mapError .spec) := by
  rw [outcome_coerceArguments]
  simp only [bind_assoc, pure_bind, ← mapError_bind_pure, Value.verdict_of_coerceBy]

/-- The failure of the command is that of the specs as they are read, else that of the data, and else
that of the first spec which is not good. -/
theorem coerceArguments_first_failure (inputs : Inputs) (data specs : String) (e : CommandError) :
    (coerceArguments inputs data specs).outcome = .error e ↔
      SpecSet.ofArgument specs = .error e ∨
        ∃ set, SpecSet.ofArgument specs = .ok set ∧
          (dataValue inputs data = .error e ∨
            ∃ v, dataValue inputs data = .ok v ∧
              ∃ error, set.verdict = .error error ∧ CommandError.spec error = e) := by
  rw [← bind_pure_eq_error_iff (f := fun _ => ()), verdict_of_coerceArguments]
  simp only [bind_eq_error_iff, mapError_eq_error_iff]

/-- A spec that is not good for any data is not reported for data that are no JSON. -/
theorem coerceArguments_bad_data_before_bad_spec :
    ¬ ∀ (specs : String) (e : SpecError),
      (∃ inputs data, (dataValue inputs data).isOk ∧
        (coerceArguments inputs data specs).outcome = .error (.spec e)) →
      ∀ (inputs : Inputs) (data : String),
        (coerceArguments inputs data specs).outcome = .error (.spec e) := by
  intro h
  have hspec : (coerceArguments ⟨.ok .empty, fun _ => .error .notUtf8⟩ "1" "array.array").outcome =
      .error (.spec ⟨.nestedArray, some "array.array"⟩) := by decide +kernel
  have hdata : (coerceArguments ⟨.ok .empty, fun _ => .error .notUtf8⟩ "\x7bnot json"
      "array.array").outcome = .error (.json (.data "\x7bnot json")) := by decide +kernel
  have hread : (dataValue ⟨.ok .empty, fun _ => .error .notUtf8⟩ "1").isOk := by decide +kernel
  have hwins := h _ _ ⟨_, _, hread, hspec⟩ ⟨.ok .empty, fun _ => .error .notUtf8⟩ "\x7bnot json"
  rw [hdata] at hwins
  cases hwins

end LooseTypes
