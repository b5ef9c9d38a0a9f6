import LooseTypes.Command.Actions
import LooseTypes.Proofs.Coercion.Outcome
import LooseTypes.Proofs.Json.Lexer

/-!
# The stages of the coercion command

The command reads the specs, then the data, and coerces (`outcome_coerceArguments`), so it succeeds
exactly if each of these stages does (`outcome_coerceArguments_eq_ok_iff`). A JSON
text as the data argument names no source but itself (`Source.ofArgument_of_ofJsonText?`), so a
printed result can be given back as it is.
-/

namespace LooseTypes

/-! ## Texts that are data -/

namespace Json

theorem tokens?_eq_none_of_token? {c : Char} {cs : List Char} (hblank : isBlank c = false)
    (h : token? (c :: cs) = none) : tokens? (c :: cs) = none := by
  rw [tokens?]
  split
  next he => simp [hblank] at he
  next c' cs' he =>
    rw [List.dropWhile_cons_of_neg (by simp [hblank])] at he
    cases he
    split
    next => rfl
    next hsome =>
      rw [h] at hsome
      cases hsome

theorem parse?_eq_none_of_token? {text : String} {c : Char} {cs : List Char}
    (htext : text.toList = c :: cs) (hblank : isBlank c = false) (h : token? (c :: cs) = none) :
    parse? text = none := by
  rw [parse?, htext, tokens?_eq_none_of_token? hblank h]
  rfl

end Json

/-- Neither `-` nor a text that begins with `@` is JSON. -/
theorem Source.ofArgument_of_ofJsonText? {text : String} {v : Value}
    (h : Value.ofJsonText? text = some v) : Source.ofArgument text = .literal text := by
  obtain ⟨j, hj, -⟩ := Option.map_eq_some_iff.1 h
  unfold ofArgument
  split
  next hminus =>
    rw [hminus, @Json.parse?_eq_none_of_token? "-" '-' [] rfl rfl rfl] at hj
    cases hj
  next =>
    split
    next path hpath =>
      rw [Json.parse?_eq_none_of_token? hpath rfl rfl] at hj
      cases hj
    next => rfl

/-! ## Stages -/

variable {inputs : Inputs} {data specs text : String}

/-- The value of the data that an argument names. -/
def dataValue (inputs : Inputs) (data : String) : Except CommandError Value := do
  let text ← ((Source.ofArgument data).read inputs).outcome
  match Value.ofJsonText? text with
  | some v => .ok v
  | none => .error (.json (.data text))

theorem dataValue_eq_ok_iff {v : Value} :
    dataValue inputs data = .ok v ↔
      ∃ text, ((Source.ofArgument data).read inputs).outcome = .ok text ∧
        Value.ofJsonText? text = some v := by
  rw [dataValue, bind_eq_ok_iff]
  refine exists_congr fun text => and_congr_right fun _ => ?_
  cases Value.ofJsonText? text <;> simp

theorem outcome_coerceArguments (inputs : Inputs) (data specs : String) :
    (coerceArguments inputs data specs).outcome = (do
      let set ← SpecSet.ofArgument specs
      let v ← dataValue inputs data
      let result ← (v.coerceBy set).outcome.mapError .spec
      return result.jsonText) := by
  simp only [coerceArguments, dataValue, Traced.outcome_bind, Traced.outcome_ofExcept, bind_assoc]
  congr! with set text
  cases Value.ofJsonText? text with
  | none => rfl
  | some v => exact Traced.outcome_bind _ _

theorem outcome_coerceArguments_eq_ok_iff :
    (coerceArguments inputs data specs).outcome = .ok text ↔
      ∃ set json v r, SpecSet.ofArgument specs = .ok set ∧
        ((Source.ofArgument data).read inputs).outcome = .ok json ∧
        Value.ofJsonText? json = some v ∧ (v.coerceBy set).outcome = .ok r ∧
        r.jsonText = text := by
  simp only [outcome_coerceArguments, bind_eq_ok_iff, dataValue_eq_ok_iff, mapError_eq_ok_iff]
  constructor
  · rintro ⟨set, hset, v, ⟨json, hjson, hv⟩, r, hr, htext⟩
    exact ⟨set, json, v, r, hset, hjson, hv, hr, Except.ok.inj htext⟩
  · rintro ⟨set, json, v, r, hset, hjson, hv, hr, rfl⟩
    exact ⟨set, hset, v, ⟨json, hjson, hv⟩, r, hr, rfl⟩

/-- Data that are given as JSON text. -/
theorem outcome_coerceArguments_of_ofJsonText? {set : SpecSet} {v r : Value}
    (hset : SpecSet.ofArgument specs = .ok set) (hv : Value.ofJsonText? data = some v)
    (hr : (v.coerceBy set).outcome = .ok r) :
    (coerceArguments inputs data specs).outcome = .ok r.jsonText := by
  have hread : ((Source.ofArgument data).read inputs).outcome = .ok data := by
    rw [Source.ofArgument_of_ofJsonText? hv]
    rfl
  exact outcome_coerceArguments_eq_ok_iff.2 ⟨set, data, v, r, hset, hread, hv, hr, rfl⟩

end LooseTypes
