import LooseTypes.Coercion.Basic
import LooseTypes.Proofs.KeyedList.MapValues
import LooseTypes.Proofs.Spec.Fault
import LooseTypes.Proofs.Text.Trim

/-!
# What a coercion gives

A good spec makes every value the one that its target converts it to (`Value.outcome_coerce_text`),
and a bad spec makes every coercion fail with the error of its check
(`Value.outcome_coerce_of_verdict`): whether a coercion fails is the matter of the spec alone.
Inside, each coercer checks its modifiers by itself, and the elements of a list are coerced one
after the other; none of them can fail once the check of the whole spec has passed. The events of
steps that all succeed are those of each in turn (`KeyedList.events_mapValuesM`).
-/

namespace LooseTypes

/-! ## Outcomes of steps -/

section Except

variable {ε ε' α β : Type} {x : Except ε α} {f : α → β}

theorem bind_eq_ok_iff {g : α → Except ε β} {b : β} :
    x >>= g = .ok b ↔ ∃ a, x = .ok a ∧ g a = .ok b := by
  cases x with
  | error e =>
    constructor
    · intro h
      cases h
    · rintro ⟨a, ha, -⟩
      cases ha
  | ok a =>
    constructor
    · exact fun h => ⟨a, rfl, h⟩
    · rintro ⟨a', ha, h⟩
      cases ha
      exact h

theorem bind_eq_error_iff {g : α → Except ε β} {e : ε} :
    x >>= g = .error e ↔ x = .error e ∨ ∃ a, x = .ok a ∧ g a = .error e := by
  cases x with
  | error e' =>
    constructor
    · rintro ⟨⟩
      exact .inl rfl
    · rintro (⟨⟨⟩⟩ | ⟨a, ha, -⟩)
      · rfl
      · cases ha
  | ok a =>
    constructor
    · exact fun h => .inr ⟨a, rfl, h⟩
    · rintro (h | ⟨a', ⟨⟩, h⟩)
      · cases h
      · exact h

theorem mapError_eq_ok_iff {g : ε → ε'} {a : α} : x.mapError g = .ok a ↔ x = .ok a := by
  cases x <;> simp [Except.mapError]

theorem mapError_eq_error_iff {g : ε → ε'} {e : ε'} :
    x.mapError g = .error e ↔ ∃ error, x = .error error ∧ g error = e := by
  cases x <;> simp [Except.mapError]

theorem mapError_bind_pure (g : ε → ε') :
    (x >>= fun a => pure (f a)).mapError g = x.mapError g >>= fun a => pure (f a) := by
  cases x <;> rfl

theorem bind_pure_eq_error_iff {e : ε} :
    (x >>= fun a => pure (f a)) = .error e ↔ x = .error e := by
  cases x with
  | error e' => constructor <;> (rintro ⟨⟩; rfl)
  | ok a => constructor <;> (intro h; cases h)

theorem exists_eq_ok_of_isOk (h : x.isOk) : ∃ a, x = .ok a := by
  cases x with
  | error e => cases h
  | ok a => exact ⟨a, rfl⟩

theorem bind_pure_unit_eq_ok_iff : (x >>= fun _ => pure ()) = .ok () ↔ x.isOk := by
  cases x with
  | error e => constructor <;> (intro h; cases h)
  | ok a => exact ⟨fun _ => rfl, fun _ => rfl⟩

end Except

namespace Traced

variable {ε α β : Type} {x : Traced ε α} {f : α → Traced ε β}

theorem outcome_bind_of_ok {a : α} (h : x.outcome = .ok a) :
    (x >>= f).outcome = (f a).outcome := by
  rw [outcome_bind, h]
  rfl

theorem outcome_bind_of_error {e : ε} (h : x.outcome = .error e) :
    (x >>= f).outcome = .error e := by
  rw [outcome_bind, h]
  rfl

theorem outcome_bind_eq_ok_iff {b : β} :
    (x >>= f).outcome = .ok b ↔ ∃ a, x.outcome = .ok a ∧ (f a).outcome = .ok b := by
  rw [outcome_bind, bind_eq_ok_iff]

theorem outcome_mapM (f : α → Traced ε β) (values : List α) :
    (values.mapM f).outcome = values.mapM fun a => (f a).outcome := by
  induction values with
  | nil => rfl
  | cons a rest ih =>
    simp only [List.mapM_cons, outcome_bind, ih]
    rfl

/-- Only what a computation gives matters to the one after it. -/
theorem bind_congr_of_outcome {g : α → Traced ε β} (h : ∀ a, x.outcome = .ok a → f a = g a) :
    x >>= f = x >>= g := by
  change x.andThen f = x.andThen g
  unfold andThen
  split
  next => rfl
  next a ha => rw [h a ha]

theorem ofSpec_bind_pure (r : Except SpecError α) (g : α → β) :
    ofSpec (r >>= fun a => pure (g a)) = ofSpec r >>= fun a => pure (g a) := by
  cases r with
  | ok a => rfl
  | error e =>
    obtain ⟨problem, spec⟩ := e
    cases problem <;> rfl

theorem events_bind_of_ok {a : α} (h : x.outcome = .ok a) :
    (x >>= f).events = x.events ++ (f a).events := by
  rw [events_bind, h]
  rfl

theorem events_bind_pure (g : α → β) : (x >>= fun a => pure (g a)).events = x.events := by
  rw [events_bind]
  cases x.outcome <;> exact List.append_nil _

theorem events_mapM (h : ∀ a, ∃ b, (f a).outcome = .ok b) (values : List α) :
    (values.mapM f).events = values.flatMap fun a => (f a).events := by
  induction values with
  | nil => rfl
  | cons value rest ih =>
    obtain ⟨b, hb⟩ := h value
    rw [List.mapM_cons, events_bind_of_ok hb, events_bind_pure, ih, List.flatMap_cons]

end Traced

namespace KeyedList

variable {α β ε : Type}

/-- Steps that all succeed give the list of what they give. -/
theorem outcome_mapValuesM {f : α → Traced ε β} {g : α → β} (h : ∀ a, (f a).outcome = .ok (g a))
    (l : KeyedList α) : (l.mapValuesM f).outcome = .ok (l.mapValues g) := by
  have hentry : ∀ entry : Key × α,
      (do return (entry.1, ← f entry.2) : Traced ε (Key × β)).outcome =
        pure (entry.1, g entry.2) := by
    intro entry
    rw [Traced.outcome_bind, h]
    rfl
  have hentries : (l.entries.toList.mapM fun entry =>
      (do return (entry.1, ← f entry.2) : Traced ε (Key × β))).outcome =
        .ok (l.entries.toList.map fun entry => (entry.1, g entry.2)) := by
    rw [Traced.outcome_mapM, funext hentry]
    exact List.mapM_pure
  have hmap : (l.entries.mapM fun entry =>
      (do return (entry.1, ← f entry.2) : Traced ε (Key × β))).outcome =
        .ok (l.entries.toList.map fun entry => (entry.1, g entry.2)).toArray := by
    rw [Array.mapM_eq_mapM_toList, map_eq_pure_bind, Traced.outcome_bind_of_ok hentries]
    rfl
  rw [mapValuesM, Traced.outcome_bind_of_ok hmap, ← List.map_toArray, Array.toArray_toList]
  rfl

theorem events_mapValuesM {f : α → Traced ε β} (h : ∀ a, ∃ b, (f a).outcome = .ok b)
    (l : KeyedList α) : (l.mapValuesM f).events = l.values.flatMap fun a => (f a).events := by
  have hentry : ∀ entry : Key × α, ∃ entry' : Key × β,
      (do return (entry.1, ← f entry.2) : Traced ε (Key × β)).outcome = .ok entry' := by
    intro entry
    obtain ⟨b, hb⟩ := h entry.2
    exact ⟨(entry.1, b), Traced.outcome_bind_of_ok hb⟩
  rw [mapValuesM, Array.mapM_eq_mapM_toList, map_eq_pure_bind, Traced.events_bind_pure,
    Traced.events_bind_pure, Traced.events_mapM hentry, values, List.flatMap_map]
  simp only [Traced.events_bind_pure]
  rfl

end KeyedList

/-! ## The values of a target -/

/-- The value made a scalar. -/
def ScalarTarget.convert : ScalarTarget → Value → Value
  | .int, v => .int v.toInt64
  | .float, v => .float v.toBinary64
  | .bool, v => .bool v.toBool
  | .uint64, v => .str v.toUint64
  | .string 0, v => .str v.toText
  | .string (_ + 1), v => .str (String.ofList (trimmed v.toText.toList))

/-- The value made what the target asks for. -/
def Target.convert : Target → Value → Value
  | .scalar t, v => t.convert v
  | .array, v => .list v.toList
  | .arrayOf e, v => .list (v.toList.mapValues e.convert)

/-! ## A good spec -/

/-- All trims but the first change nothing. -/
theorem foldl_apply_trims (trims : Nat) (text : List Char) :
    (List.replicate (trims + 1) TextModifier.trim).foldl Spec.coerceString.apply text =
      trimmed text := by
  induction trims with
  | zero => rfl
  | succ n ih =>
    rw [List.replicate_succ', List.foldl_append, ih]
    exact trimmed_trimmed text

theorem ScalarTarget.coerceScalar_of_modifiers (t : ScalarTarget) {s : Spec}
    (h : s.modifiers = t.modifiers) (v : Value) : s.coerceScalar t.type v = .ok (t.convert v) := by
  cases t with
  | string trims =>
    have hstring : s.coerceString v =
        .ok (String.ofList ((List.replicate trims TextModifier.trim).foldl
          Spec.coerceString.apply v.toText.toList)) := by
      rw [Spec.coerceString, Spec.textModifiers_of_trims h]
      rfl
    rw [type, Spec.coerceScalar, hstring]
    cases trims with
    | zero => simp [convert]
    | succ n =>
      rw [foldl_apply_trims]
      rfl
  | int | float | bool | uint64 =>
    have hnone : s.expectNoModifiers = .ok () := by
      simp [Spec.expectNoModifiers, Spec.modifierText?, h, modifiers]
    simp only [type, Spec.coerceScalar, Spec.coerceInt, Spec.coerceFloat, Spec.coerceBool,
      Spec.coerceUint64, hnone]
    rfl

theorem Spec.outcome_coerce_array (modifiers : List String) (v : Value) :
    (coerce ⟨.array, modifiers⟩ v).outcome =
      (coerceArray ⟨.array, modifiers⟩ v >>= fun l => pure (Value.list l)).outcome := rfl

theorem ScalarTarget.outcome_coerce (t : ScalarTarget) (v : Value) :
    (t.toElement.coerce v).outcome = .ok (t.convert v) := by
  rw [ElementSpec.coerce, Traced.outcome_bind]
  exact t.coerceScalar_of_modifiers rfl v

theorem Target.outcome_coerce (t : Target) (v : Value) :
    (t.toSpec.coerce v).outcome = .ok (t.convert v) := by
  cases t with
  | scalar t => exact t.outcome_coerce v
  | array => rfl
  | arrayOf e =>
    have helement : (Traced.ofSpec (arrayOf e).toSpec.element?).outcome =
        .ok (some e.toElement) := by
      rw [Traced.outcome_ofSpec, element?_arrayOf]
    have hlist : ((arrayOf e).toSpec.coerceArray v).outcome =
        .ok (v.toList.mapValues e.convert) := by
      rw [Spec.coerceArray, Traced.outcome_bind_of_ok helement]
      exact KeyedList.outcome_mapValuesM e.outcome_coerce v.toList
    rw [toSpec, Spec.outcome_coerce_array, ← toSpec, Traced.outcome_bind_of_ok hlist]
    rfl

theorem Value.outcome_coerce_text (v : Value) (t : Target) :
    (v.coerce t.text).outcome = .ok (t.convert v) := by
  rw [coerce, t.parse_text]
  exact t.outcome_coerce v

section Scalars

variable (v : Value)

theorem Value.outcome_coerce_int : (v.coerce "int").outcome = .ok (.int v.toInt64) :=
  v.outcome_coerce_text (.scalar .int)

theorem Value.outcome_coerce_float : (v.coerce "float").outcome = .ok (.float v.toBinary64) :=
  v.outcome_coerce_text (.scalar .float)

theorem Value.outcome_coerce_string : (v.coerce "string").outcome = .ok (.str v.toText) :=
  v.outcome_coerce_text (.scalar (.string 0))

theorem Value.outcome_coerce_uint64 : (v.coerce "uint64").outcome = .ok (.str v.toUint64) :=
  v.outcome_coerce_text (.scalar .uint64)

end Scalars

/-! ## A bad spec -/

namespace Spec

variable {s : Spec} {e : SpecError}

theorem coerceScalar_of_check {type : Scalar} (h : s.checkScalar type = .error e) (v : Value) :
    s.coerceScalar type v = .error e := by
  cases type with
  | string =>
    rw [coerceScalar, coerceString, bind_pure_eq_error_iff.1 h]
    rfl
  | int | float | bool | uint64 =>
    rw [checkScalar] at h
    simp only [coerceScalar, coerceInt, coerceFloat, coerceBool, coerceUint64, h]
    rfl

theorem outcome_coerce_of_check (h : s.check = .error e) (v : Value) :
    (s.coerce v).outcome = .error e := by
  obtain ⟨tag, modifiers⟩ := s
  cases tag with
  | scalar type => exact coerceScalar_of_check h v
  | array =>
    -- the element spec is checked before there is any element
    have helement : (Traced.ofSpec (element? ⟨.array, modifiers⟩)).outcome = .error e := by
      rw [Traced.outcome_ofSpec, bind_pure_eq_error_iff.1 h]
    have hlist : (coerceArray ⟨.array, modifiers⟩ v).outcome = .error e :=
      Traced.outcome_bind_of_error helement
    rw [outcome_coerce_array, Traced.outcome_bind_of_error hlist]

end Spec

theorem Value.outcome_coerce_of_verdict {text : String} {e : SpecError}
    (h : Spec.verdict text = .error e) (v : Value) : (v.coerce text).outcome = .error e := by
  cases hparse : Spec.parse text with
  | error e' =>
    rw [Spec.verdict, hparse] at h
    rw [coerce, hparse, Traced.outcome_bind, Traced.outcome_ofSpec]
    exact congrArg Except.error (Except.error.inj h)
  | ok s =>
    rw [Spec.verdict_eq_check hparse] at h
    rw [coerce, hparse]
    exact Spec.outcome_coerce_of_check h v

/-! ## The spec alone decides -/

namespace Value

/-- Whatever the value, its coercion is the verdict on the spec once the result is forgotten. -/
theorem verdict_of_coerce (v : Value) (text : String) :
    (do let _ ← (v.coerce text).outcome; return ()) = Spec.verdict text := by
  rcases target_or_fault text with ⟨t, rfl⟩ | ⟨e, he⟩
  · rw [outcome_coerce_text, Spec.verdict_text]
    rfl
  · have hv := Spec.verdict_of_fault he
    rw [outcome_coerce_of_verdict hv, hv]
    rfl

theorem outcome_coerce_eq_error_iff {v : Value} {text : String} {e : SpecError} :
    (v.coerce text).outcome = .error e ↔ Spec.verdict text = .error e := by
  rw [← verdict_of_coerce v, bind_pure_eq_error_iff]

theorem isOk_outcome_coerce_iff {v : Value} {text : String} :
    (v.coerce text).outcome.isOk ↔ Spec.verdict text = .ok () := by
  rw [← verdict_of_coerce v, bind_pure_unit_eq_ok_iff]

end Value

end LooseTypes
