import LooseTypes.Command.Actions
import LooseTypes.Proofs.Coercion.Outcome
import Mathlib.Data.List.Forall2

/-!
# The check of specs against coercion

The check command looks at specs alone, and a coercion checks its spec on the way. Both come to the
same: a spec passes the check if every value is coerced by it, which is already so if one value is,
and a spec that does not pass has the error that coercing any value gives. Both are the verdict on
the spec with a result added (`verdict_of_checkSpec`, `Value.verdict_of_coerce`).
-/

namespace LooseTypes

/-- The line for a text says that every value is coerced by it, or with which error none is. -/
inductive Reported (text : String) : String → Prop where
  | ok {s : Spec} :
    Spec.parse text = .ok s → (∀ v : Value, (v.coerce text).outcome.isOk) →
    Reported text
      ("ok " ++ text ++ " -> " ++ s.tag.name ++ " (default " ++ s.tag.zero.jsonText ++ ")")
  | error {e : SpecError} :
    (∀ v : Value, (v.coerce text).outcome = .error e) → Reported text (errorLine e.message)

namespace Spec

theorem verdict_eq_error_iff_parse_or_check {text : String} {e : SpecError} :
    verdict text = .error e ↔
      parse text = .error e ∨ ∃ s, parse text = .ok s ∧ s.check = .error e := by
  cases hparse : parse text with
  | error e' => simp [verdict, hparse, bind, Except.bind]
  | ok s => simp [verdict_eq_check hparse]

end Spec

theorem outcome_checkSpec (text : String) :
    (checkSpec text).outcome = (do
      let s ← Spec.parse text
      s.check
      return "ok " ++ text ++ " -> " ++ s.tag.name ++
        " (default " ++ s.tag.zero.jsonText ++ ")") := by
  simp only [checkSpec, Traced.outcome_bind, Traced.outcome_ofSpec, Traced.outcome_pure]
  rfl

theorem verdict_of_checkSpec (text : String) :
    (do let _ ← (checkSpec text).outcome; return ()) = Spec.verdict text := by
  rw [outcome_checkSpec, Spec.verdict]
  simp only [bind_assoc, pure_bind, bind_pure_unit]

theorem outcome_checkSpec_eq_error_iff {text : String} {e : SpecError} :
    (checkSpec text).outcome = .error e ↔ Spec.verdict text = .error e := by
  rw [← verdict_of_checkSpec, bind_pure_eq_error_iff]

theorem isOk_outcome_checkSpec_iff {text : String} :
    (checkSpec text).outcome.isOk ↔ Spec.verdict text = .ok () := by
  rw [← verdict_of_checkSpec, bind_pure_unit_eq_ok_iff]

theorem reported_line (text : String) :
    Reported text (match (checkSpec text).outcome with
      | .ok line => line
      | .error e => errorLine e.message) := by
  rcases target_or_fault text with ⟨t, rfl⟩ | ⟨e, he⟩
  · rw [outcome_checkSpec, t.parse_text]
    show Reported t.text (match t.toSpec.check >>= _ with | .ok line => line | .error e => _)
    rw [t.check_toSpec]
    exact .ok t.parse_text fun v => Value.isOk_outcome_coerce_iff.2 (Spec.verdict_text t)
  · have hv := Spec.verdict_of_fault he
    rw [outcome_checkSpec_eq_error_iff.2 hv]
    exact .error (Value.outcome_coerce_of_verdict hv)

theorem allOk_checkSpecs_iff {texts : List String} :
    (checkSpecs texts).allOk ↔ ∀ text ∈ texts, Spec.verdict text = .ok () := by
  simp only [checkSpecs, List.all_map, List.all_eq_true, Function.comp_apply,
    isOk_outcome_checkSpec_iff]

/-- The check of specs and the coercion of values fail for the same specs with the same errors. -/
theorem checkSpecs_agrees_with_coerce :
    (∀ (v : Value) (text : String) (e : SpecError), (v.coerce text).outcome = .error e ↔
      Spec.parse text = .error e ∨ ∃ s, Spec.parse text = .ok s ∧ s.check = .error e) ∧
    (∀ text : String,
      ((checkSpec text).outcome.isOk ↔ ∀ v : Value, (v.coerce text).outcome.isOk) ∧
      ((checkSpec text).outcome.isOk ↔ ∃ v : Value, (v.coerce text).outcome.isOk)) ∧
    (∀ (v : Value) (text : String) (e : SpecError),
      (checkSpec text).outcome = .error e ↔ (v.coerce text).outcome = .error e) ∧
    ∀ texts : List String,
      ((checkSpecs texts).allOk ↔ ∀ text ∈ texts, ∀ v : Value, (v.coerce text).outcome.isOk) ∧
      List.Forall₂ Reported texts (checkSpecs texts).lines := by
  refine ⟨fun v text e => ?_, fun text => ⟨?_, ?_⟩, fun v text e => ?_, fun texts => ⟨?_, ?_⟩⟩
  · rw [Value.outcome_coerce_eq_error_iff, Spec.verdict_eq_error_iff_parse_or_check]
  · simp only [isOk_outcome_checkSpec_iff, Value.isOk_outcome_coerce_iff, forall_const]
  · simp only [isOk_outcome_checkSpec_iff, Value.isOk_outcome_coerce_iff, exists_const]
  · rw [outcome_checkSpec_eq_error_iff, Value.outcome_coerce_eq_error_iff]
  · simp only [allOk_checkSpecs_iff, Value.isOk_outcome_coerce_iff, forall_const]
  · simp only [checkSpecs, List.map_map, List.forall₂_map_right_iff]
    exact List.forall₂_same.2 fun text _ => reported_line text

end LooseTypes
