import LooseTypes.Proofs.Coercion.Fields
import LooseTypes.Proofs.Coercion.Inhabits

/-!
# Soundness of coercion

A coercion by a good spec succeeds with a value of the type that the spec declares, and a value of
the type is coerced to itself, so a second coercion by the same spec changes nothing. Of several
specs for one field the last one counts, in the type of the result
(`Value.inhabits_convertFields`) and in what a second run finds under the key
(`Value.convertFields_convertFields`).
-/

namespace LooseTypes

/-! ## Types of results -/

theorem exists_target_of_check {text : String} {s : Spec} (hparse : Spec.parse text = .ok s)
    (hcheck : s.check = .ok ()) : ∃ t : Target, t.text = text := by
  rw [← Spec.verdict_eq_ok_iff, Spec.verdict_eq_check hparse, hcheck]

theorem exists_toSpec_eq_of_check {text : String} {s : Spec} (hparse : Spec.parse text = .ok s)
    (hcheck : s.check = .ok ()) : ∃ t : Target, t.text = text ∧ t.toSpec = s := by
  obtain ⟨t, rfl⟩ := exists_target_of_check hparse hcheck
  exact ⟨t, rfl, Except.ok.inj (t.parse_text.symm.trans hparse)⟩

theorem Value.inhabits_convertFields {v : Value} {targets : List (Key × Target)} {key : Key}
    {x : Value} (h : (v.convertFields targets).get? key = some x) :
    ∃ t, targets.reverse.lookup key = some t ∧ t.Inhabits x := by
  rw [get?_convertFields] at h
  obtain ⟨t, ht, rfl⟩ := Option.map_eq_some_iff.1 h
  exact ⟨t, ht, t.inhabits_convert _⟩

/-- Every spec that is read and passes its check coerces every value to one of the type that it
declares, and so does the last spec of each key in a coercion of fields. -/
theorem coerce_sound :
    (∀ (v : Value) (text : String) (s : Spec), Spec.parse text = .ok s → s.check = .ok () →
      ∃ (r : Value) (t : Target), (v.coerce text).outcome = .ok r ∧ t.Inhabits r ∧
        ∀ u : Target, u.text = text ↔ u = t) ∧
    ∀ (v : Value) (specs : List (Key × String)) (result : KeyedList Value),
      (v.coerceFields specs).outcome = .ok result →
        ∀ entry ∈ result.toList, ∃ t : Target,
          specs.reverse.lookup entry.1 = some t.text ∧ t.Inhabits entry.2 := by
  constructor
  · intro v text s hparse hcheck
    obtain ⟨t, rfl⟩ := exists_target_of_check hparse hcheck
    exact ⟨t.convert v, t, v.outcome_coerce_text t, t.inhabits_convert v, fun u => Target.text_inj⟩
  · intro v specs result h entry hentry
    obtain ⟨targets, rfl⟩ := exists_targetSpecs_eq (Value.verdict_of_coerceFields h)
    rw [Value.outcome_coerceFields, Except.ok.injEq] at h
    subst h
    have hwf : (v.convertFields targets).WellFormed := KeyedList.wellFormed_ofEntries _
    have hget : (v.convertFields targets).get? entry.1 = some entry.2 := by
      rw [hwf.get?_eq_lookup, lookup_eq_of_mem hwf.nodup hentry]
    obtain ⟨t, ht, hx⟩ := Value.inhabits_convertFields hget
    exact ⟨t, by rw [lookup_reverse_targetSpecs, ht, Option.map_some], hx⟩

theorem coerce_sound_repeated_field :
    (∃ (r : Value) (t : Target), ((Value.str " 007").coerce "uint64").outcome = .ok r ∧
      t.Inhabits r ∧ ∀ u : Target, u.text = "uint64" ↔ u = t) ∧
    ∀ entry ∈ (Value.null.convertFields
        [(.name "a", .scalar .int), (.name "a", .scalar (.string 1))]).toList,
      ∃ t : Target, [(Key.name "a", "int"), (.name "a", "string.trim")].reverse.lookup entry.1 =
        some t.text ∧ t.Inhabits entry.2 :=
  ⟨coerce_sound.1 _ _ ⟨.scalar .uint64, []⟩ (Target.scalar .uint64).parse_text rfl,
    coerce_sound.2 .null [(.name "a", "int"), (.name "a", "string.trim")] _
      (Value.outcome_coerceFields .null
        [(.name "a", .scalar .int), (.name "a", .scalar (.string 1))])⟩

/-! ## Coercing twice -/

/-- All specs of the set are good. -/
def SpecSet.Good : SpecSet → Prop
  | .single text => Spec.verdict text = .ok ()
  | .fields specs => ∀ field ∈ specs, Spec.verdict field.2 = .ok ()

theorem Value.convertFields_convertFields (v : Value) (targets : List (Key × Target)) :
    (Value.list (v.convertFields targets)).convertFields targets = v.convertFields targets := by
  refine KeyedList.ofEntries_congr ?_ fun key => ?_
  · simp only [List.map_map, Function.comp_def]
  · rw [← KeyedList.get?_ofEntries, ← KeyedList.get?_ofEntries, ← convertFields, ← convertFields,
      get?_convertFields, get?_convertFields]
    cases ht : targets.reverse.lookup key with
    | none => rfl
    | some t =>
      -- the second run finds what the last spec for the key has put there
      have hfield : (Value.list (v.convertFields targets)).field key =
          t.convert (v.field key) := by
        rw [field, list?, Option.bind_some, get?_convertFields, ht]
        rfl
      rw [Option.map_some, Option.map_some, hfield, t.convert_convert]

/-- A second coercion by the same good specs succeeds and changes nothing. -/
theorem coerceBy_idempotent :
    (∀ (v : Value) (text : String), Spec.verdict text = .ok () →
      ∃ r : Value, (v.coerce text).outcome = .ok r ∧ (r.coerce text).outcome = .ok r) ∧
    ∀ (v : Value) (specs : SpecSet), specs.Good →
      ∃ r : Value, (v.coerceBy specs).outcome = .ok r ∧ (r.coerceBy specs).outcome = .ok r := by
  have hsingle : ∀ (v : Value) (text : String), Spec.verdict text = .ok () →
      ∃ r : Value, (v.coerce text).outcome = .ok r ∧ (r.coerce text).outcome = .ok r := by
    intro v text h
    obtain ⟨t, rfl⟩ := Spec.verdict_eq_ok_iff.1 h
    exact ⟨t.convert v, v.outcome_coerce_text t, by rw [Value.outcome_coerce_text, t.convert_convert]⟩
  refine ⟨hsingle, fun v specs h => ?_⟩
  cases specs with
  | single text => exact hsingle v text h
  | fields specs =>
    obtain ⟨targets, rfl⟩ := exists_targetSpecs_eq h
    have hrun : ∀ w : Value, (w.coerceBy (.fields (targetSpecs targets))).outcome =
        .ok (.list (w.convertFields targets)) := by
      intro w
      rw [Value.coerceBy, Traced.outcome_bind_of_ok (w.outcome_coerceFields targets)]
      rfl
    refine ⟨.list (v.convertFields targets), hrun v, ?_⟩
    rw [hrun, Value.convertFields_convertFields]

theorem coerceBy_idempotent_repeated_field :
    (∃ r : Value, ((Value.str "-0.5").coerce "array.uint64").outcome = .ok r ∧
      (r.coerce "array.uint64").outcome = .ok r) ∧
    ∃ r : Value,
      ((Value.str "x").coerceBy (.fields [(.name "7", "int"), (.name "7", "uint64")])).outcome =
        .ok r ∧
      (r.coerceBy (.fields [(.name "7", "int"), (.name "7", "uint64")])).outcome = .ok r :=
  ⟨coerceBy_idempotent.1 _ _ (Spec.verdict_text (.arrayOf .uint64)),
    coerceBy_idempotent.2 _ _ fun field hfield => by
      rcases List.mem_cons.1 hfield with rfl | hfield
      · exact Spec.verdict_text (.scalar .int)
      · rw [List.mem_singleton.1 hfield]
        exact Spec.verdict_text (.scalar .uint64)⟩

end LooseTypes
