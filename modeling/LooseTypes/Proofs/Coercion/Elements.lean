import LooseTypes.Proofs.Coercion.Outcome
import Mathlib.Data.List.Forall2

/-!
# Coercing the elements of a list

A spec `array.e` makes a list of the value, as `array` does, and coerces each element by `e` under
its key (`coerce_array_maps_elements`). Its own check is that of `e`, which is written in it, unless
`e` asks for an array (`Spec.verdict_array_append`).
-/

namespace LooseTypes

/-- The list that a value is: a list is itself, a scalar is the only element of one, and null and
objects have no elements. -/
inductive Value.AsList : Value → KeyedList Value → Prop where
  | list (items : KeyedList Value) : AsList (.list items) items
  | null : AsList .null .empty
  | object (o : Object) : AsList (.object o) .empty
  | scalar {v : Value} :
    v.kind ∈ [.bool, .int, .float, .string] → AsList v (.ofEntries [(.index 0, v)])

theorem Value.asList_toList (v : Value) : v.AsList v.toList := by
  cases v with
  | null => exact .null
  | list items => exact .list items
  | object o => exact .object o
  | bool b => exact .scalar (by simp [kind])
  | int n => exact .scalar (by simp [kind])
  | float x => exact .scalar (by simp [kind])
  | str s => exact .scalar (by simp [kind])

/-- The second list has the keys and the next index of the first, and its values are related to
those of the first, one by one. -/
structure KeyedList.MapsTo {α β : Type} (l : KeyedList α) (R : α → β → Prop) (l' : KeyedList β) :
    Prop where
  keys_eq : l'.keys = l.keys
  next_eq : l'.next = l.next
  values : List.Forall₂ R l.values l'.values

theorem KeyedList.mapsTo_mapValues {α β : Type} {R : α → β → Prop} {f : α → β}
    (h : ∀ a, R a (f a)) (l : KeyedList α) : l.MapsTo R (l.mapValues f) where
  keys_eq := l.keys_mapValues f
  next_eq := rfl
  values := by
    rw [values_mapValues, List.forall₂_map_right_iff]
    exact List.forall₂_same.2 fun a _ => h a

/-! ## The spec of the elements -/

theorem Spec.verdict_array_append (text : String) :
    verdict ("array." ++ text) =
      if firstToken text = "array" then .error ⟨.nestedArray, some ("array." ++ text)⟩
      else verdict text := by
  split
  next h => exact verdict_of_fault (.nestedArray rfl h)
  next h =>
    have hparse : parse ("array." ++ text) = .ok ⟨.array, specTokens text⟩ :=
      parse_name_append .array text
    rw [verdict_eq_check hparse, check_array_specTokens h]

theorem Spec.verdict_array_append_eq_error_iff {text : String} :
    (∃ e, verdict ("array." ++ text) = .error e) ↔
      (∃ e, verdict text = .error e) ∨ firstToken text = "array" := by
  rw [verdict_array_append]
  by_cases h : firstToken text = "array"
  · rw [if_pos h]
    exact ⟨fun _ => .inr h, fun _ => ⟨_, rfl⟩⟩
  · rw [if_neg h, or_iff_left h]

/-- A good spec whose first token is not `array` is that of a scalar. -/
theorem ScalarTarget.exists_text_eq {text : String} (h : Spec.verdict text = .ok ())
    (harray : firstToken text ≠ "array") : ∃ e : ScalarTarget, e.text = text := by
  obtain ⟨t, rfl⟩ := Spec.verdict_eq_ok_iff.1 h
  cases t with
  | scalar e => exact ⟨e, rfl⟩
  | array => exact absurd (by decide) harray
  | arrayOf e => exact absurd (Target.firstToken_text_arrayOf e) harray

/-! ## Coercion -/

/-- Coercion by `array` gives the list that a value is, and coercion by `array.e` the same list with
each element coerced by `e`. It fails just if `e` is bad or asks for an array, whatever the value. -/
theorem coerce_array_maps_elements :
    (∀ v : Value, ∃ l, v.AsList l ∧ (v.coerce "array").outcome = .ok (.list l)) ∧
    (∀ (v : Value) (text : String), Spec.verdict text = .ok () → firstToken text ≠ "array" →
      ∃ l l', (v.coerce "array").outcome = .ok (.list l) ∧
        (v.coerce ("array." ++ text)).outcome = .ok (.list l') ∧
          l.MapsTo (fun x y => (x.coerce text).outcome = .ok y) l') ∧
    ∀ (v : Value) (text : String),
      (∃ e, (v.coerce ("array." ++ text)).outcome = .error e) ↔
        (∃ e, Spec.verdict text = .error e) ∨ firstToken text = "array" := by
  have hlist : ∀ v : Value, (v.coerce "array").outcome = .ok (.list v.toList) :=
    fun v => v.outcome_coerce_text .array
  refine ⟨fun v => ⟨v.toList, v.asList_toList, hlist v⟩, fun v text h harray => ?_,
    fun v text => ?_⟩
  · obtain ⟨e, rfl⟩ := ScalarTarget.exists_text_eq h harray
    refine ⟨v.toList, v.toList.mapValues e.convert, hlist v, v.outcome_coerce_text (.arrayOf e), ?_⟩
    exact KeyedList.mapsTo_mapValues (fun x => x.outcome_coerce_text (.scalar e)) v.toList
  · simp only [Value.outcome_coerce_eq_error_iff]
    exact Spec.verdict_array_append_eq_error_iff

theorem coerce_array_maps_elements_nested_list :
    let v : Value := .list (.ofEntries
      [(.name "b", .str " 2 "), (.index 7, .list (.ofList [.null])), (.index (-1), .float .nan)])
    Spec.verdict "string.trim" = .ok () ∧ firstToken "string.trim" ≠ "array" ∧
      ∃ l l', (v.coerce "array").outcome = .ok (.list l) ∧
        (v.coerce ("array." ++ "string.trim")).outcome = .ok (.list l') ∧
          l.MapsTo (fun x y => (x.coerce "string.trim").outcome = .ok y) l' :=
  have hverdict := Spec.verdict_text (.scalar (.string 1))
  ⟨hverdict, by decide, coerce_array_maps_elements.2.1 _ _ hverdict (by decide)⟩

end LooseTypes
