import LooseTypes.Proofs.Coercion.Soundness
import LooseTypes.Proofs.Command.Check
import LooseTypes.Proofs.Value.Interchange

/-!
# Defaults

The zero of a type is a table of its own, which the check command prints from. It is what null is
coerced to by every good spec of the type, whatever trims or element spec it has
(`Target.convert_null`), so a field without a value comes out as the zero of its last spec
(`Value.get?_convertFields_of_lacks`).
-/

namespace LooseTypes

/-! ## The zeros -/

theorem ScalarTarget.convert_null (t : ScalarTarget) : t.convert .null = (Tag.scalar t.type).zero := by
  cases t with
  | int | float | bool | uint64 => rfl
  | string trims => cases trims <;> rfl

theorem Target.convert_null (t : Target) : t.convert .null = t.toSpec.tag.zero := by
  cases t with
  | scalar t => exact t.convert_null
  | array => rfl
  | arrayOf e =>
    -- null has no elements that the element spec could apply to
    show Value.list (KeyedList.empty.mapValues e.convert) = .list .empty
    rw [KeyedList.mapValues_empty]

theorem Tag.portable_zero (tag : Tag) (n : Nat) : tag.zero.Portable (n + 1) := by
  cases tag with
  | array => exact Value.portable_ofList fun v h => absurd h List.not_mem_nil
  | scalar type =>
    cases type with
    | int => exact .int _ _
    | float => exact .float _ _ _
    | bool => exact .bool _ _
    | string | uint64 => exact .str _ _

theorem Tag.readBack_zero (tag : Tag) : tag.zero.readBack Json.rereadRank = tag.zero := by
  cases tag with
  | array =>
    show (Value.list .empty).readBack Json.rereadRank = .list .empty
    rw [Value.readBack_list, KeyedList.mapValues_empty]
  | scalar type =>
    cases type with
    | int | bool | string | uint64 => rfl
    | float =>
      have hzero : Json.rereadRank ⟨0, by decide⟩ = ⟨0, by decide⟩ :=
        Json.rereadRank_eq_of_isExact (by decide)
      exact congrArg (fun rank => Value.float (.finite false rank)) hzero

/-- Every zero can be printed with nothing lost. -/
theorem Tag.ofJsonText?_zero (tag : Tag) : Value.ofJsonText? tag.zero.jsonText = some tag.zero := by
  rw [(tag.portable_zero _).ofJsonText?_jsonText, tag.readBack_zero]

/-! ## Fields without a value -/

theorem exists_lookup_reverse_of_mem {α : Type} {entries : List (Key × α)} {key : Key}
    (h : key ∈ entries.map (·.1)) : ∃ value, entries.reverse.lookup key = some value := by
  obtain ⟨entry, hentry, rfl⟩ := List.mem_map.1 h
  rw [← Option.isSome_iff_exists, Option.isSome_iff_ne_none, Ne, List.lookup_eq_none_iff]
  intro hnone
  simpa using hnone entry (List.mem_reverse.2 hentry)

namespace Value

/-- There is nothing under the key, or null. -/
inductive Lacks (key : Key) : Value → Prop where
  | noList {v : Value} : v.list? = none → Lacks key v
  | noEntry {items : KeyedList Value} : items.get? key = none → Lacks key (.list items)
  | null {items : KeyedList Value} : items.get? key = some .null → Lacks key (.list items)

theorem Lacks.field_eq {v : Value} {key : Key} (h : v.Lacks key) : v.field key = .null := by
  cases h with
  | noList h => rw [field, h, Option.bind_none, Option.getD_none]
  | noEntry h => rw [field, list?, Option.bind_some, h, Option.getD_none]
  | null h => rw [field, list?, Option.bind_some, h, Option.getD_some]

theorem get?_convertFields_of_lacks {v : Value} {key : Key} (h : v.Lacks key)
    {targets : List (Key × Target)} {t : Target} (ht : targets.reverse.lookup key = some t) :
    (v.convertFields targets).get? key = some t.toSpec.tag.zero := by
  rw [get?_convertFields, ht, Option.map_some, h.field_eq, t.convert_null]

end Value

/-! ## The printed default -/

theorem outcome_checkSpec_text (t : Target) :
    (checkSpec t.text).outcome = .ok ("ok " ++ t.text ++ " -> " ++ t.toSpec.tag.name ++
      " (default " ++ t.toSpec.tag.zero.jsonText ++ ")") := by
  rw [outcome_checkSpec, t.parse_text]
  show (t.toSpec.check >>= _) = _
  rw [t.check_toSpec]
  rfl

/-- Every spec that is read and passes its check coerces null to the zero of its type. The check
command prints this result as the default, and it reads back as what it was. In a coercion of fields
by good specs each field that has no value, or null, comes out as the zero of the last spec for it. -/
theorem coerce_null_gives_zero :
    (∀ (text : String) (s : Spec), Spec.parse text = .ok s → s.check = .ok () →
      ∃ r, (Value.null.coerce text).outcome = .ok r ∧ r = s.tag.zero ∧
        (checkSpec text).outcome = .ok ("ok " ++ text ++ " -> " ++ s.tag.name ++
          " (default " ++ r.jsonText ++ ")") ∧
        Value.ofJsonText? r.jsonText = some r) ∧
    ∀ (v : Value) (specs : List (Key × String)),
      (∀ field ∈ specs, Spec.verdict field.2 = .ok ()) →
        ∃ result, (v.coerceFields specs).outcome = .ok result ∧
          ∀ key ∈ specs.map (·.1), v.Lacks key →
            ∃ (spec : String) (s : Spec), specs.reverse.lookup key = some spec ∧
              Spec.parse spec = .ok s ∧ result.get? key = some s.tag.zero := by
  refine ⟨fun text s hparse hcheck => ?_, fun v specs hgood => ?_⟩
  · obtain ⟨t, rfl⟩ := exists_target_of_check hparse hcheck
    obtain rfl : t.toSpec = s := Except.ok.inj (t.parse_text.symm.trans hparse)
    refine ⟨t.toSpec.tag.zero, ?_, rfl, outcome_checkSpec_text t, t.toSpec.tag.ofJsonText?_zero⟩
    rw [Value.outcome_coerce_text, t.convert_null]
  · obtain ⟨targets, rfl⟩ := exists_targetSpecs_eq hgood
    refine ⟨v.convertFields targets, v.outcome_coerceFields targets, fun key hkey hlacks => ?_⟩
    rw [map_fst_targetSpecs] at hkey
    obtain ⟨t, ht⟩ := exists_lookup_reverse_of_mem hkey
    refine ⟨t.text, t.toSpec, ?_, t.parse_text, Value.get?_convertFields_of_lacks hlacks ht⟩
    rw [lookup_reverse_targetSpecs, ht, Option.map_some]

theorem coerce_null_gives_zero_repeated_field :
    (∃ r, (Value.null.coerce "array.string.trim").outcome = .ok r ∧ r = Tag.array.zero ∧
      (checkSpec "array.string.trim").outcome = .ok ("ok " ++ "array.string.trim" ++ " -> " ++
        Tag.array.name ++ " (default " ++ r.jsonText ++ ")") ∧
      Value.ofJsonText? r.jsonText = some r) ∧
    let v : Value := .list (.ofEntries [(.name "a", .null), (.index 7, .int 1)])
    let specs := [(Key.name "a", "int"), (.name "b", "string.trim"), (.name "a", "uint64")]
    v.Lacks (.name "a") ∧ v.Lacks (.name "b") ∧
    ∃ result, (v.coerceFields specs).outcome = .ok result ∧
      ∀ key ∈ [Key.name "a", .name "b"], ∃ (spec : String) (s : Spec),
        specs.reverse.lookup key = some spec ∧ Spec.parse spec = .ok s ∧
          result.get? key = some s.tag.zero := by
  obtain ⟨hone, hfields⟩ := coerce_null_gives_zero
  refine ⟨hone _ _ (Target.arrayOf (.string 1)).parse_text
    (Target.arrayOf (.string 1)).check_toSpec, ?_⟩
  intro v specs
  have hgood : ∀ field ∈ specs, Spec.verdict field.2 = .ok () := by
    refine List.forall_mem_cons.2 ⟨Spec.verdict_text (.scalar .int), ?_⟩
    refine List.forall_mem_cons.2 ⟨Spec.verdict_text (.scalar (.string 1)), ?_⟩
    exact List.forall_mem_singleton.2 (Spec.verdict_text (.scalar .uint64))
  have ha : v.Lacks (.name "a") := .null (KeyedList.get?_ofEntries _ _)
  have hb : v.Lacks (.name "b") := .noEntry (KeyedList.get?_ofEntries _ _)
  obtain ⟨result, hresult, hzero⟩ := hfields v specs hgood
  refine ⟨ha, hb, result, hresult, List.forall_mem_cons.2 ⟨?_, List.forall_mem_singleton.2 ?_⟩⟩
  · exact hzero _ (by decide) ha
  · exact hzero _ (by decide) hb

end LooseTypes
