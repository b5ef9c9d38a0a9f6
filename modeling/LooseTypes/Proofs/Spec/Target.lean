import LooseTypes.Proofs.Spec.Tokens

/-!
# Targets: the specs that pass their check

A target is what a good spec asks for: a scalar type, with a number of trims if it is a text, a
list as it is, or a list of scalars. Each target has one text, which is read as the one spec of the
target (`Target.parse_text`, `Target.text_inj`), and this spec passes its check
(`Target.check_toSpec`).
-/

namespace LooseTypes

/-- A scalar type, with as many trims as its text has. -/
inductive ScalarTarget where
  | int
  | float
  | bool
  | uint64
  | string (trims : Nat)
  deriving DecidableEq, Repr

/-- What a good spec asks for. -/
inductive Target where
  | scalar (type : ScalarTarget)
  | array
  | arrayOf (element : ScalarTarget)
  deriving DecidableEq, Repr

namespace ScalarTarget

def text : ScalarTarget → String
  | .int => "int"
  | .float => "float"
  | .bool => "bool"
  | .uint64 => "uint64"
  | .string trims => "string" ++ String.join (List.replicate trims ".trim")

def type : ScalarTarget → Scalar
  | .int => .int
  | .float => .float
  | .bool => .bool
  | .uint64 => .uint64
  | .string _ => .string

def modifiers : ScalarTarget → List String
  | .string trims => List.replicate trims "trim"
  | _ => []

/-- The target as the spec of array elements. -/
def toElement (t : ScalarTarget) : ElementSpec := ⟨t.type, t.modifiers⟩

end ScalarTarget

namespace Target

def text : Target → String
  | .scalar t => t.text
  | .array => "array"
  | .arrayOf e => "array." ++ e.text

def toSpec : Target → Spec
  | .scalar t => ⟨.scalar t.type, t.modifiers⟩
  | .array => ⟨.array, []⟩
  | .arrayOf e => ⟨.array, e.type.name :: e.modifiers⟩

end Target

/-! ## Reading the text of a target -/

theorem specTokens_trims_append {head : String} (h : PointFree head) (trims : Nat) (rest : String) :
    specTokens (head ++ String.join (List.replicate trims ".trim") ++ "." ++ rest) =
      head :: (List.replicate trims "trim" ++ specTokens rest) := by
  induction trims generalizing head with
  | zero => simpa using specTokens_append h rest
  | succ n ih =>
    have hnext : head ++ String.join (List.replicate (n + 1) ".trim") ++ "." ++ rest =
        head ++ "." ++ ("trim" ++ String.join (List.replicate n ".trim") ++ "." ++ rest) := by
      rw [List.replicate_succ, String.join_cons, show ".trim" = "." ++ "trim" from rfl]
      simp only [String.append_assoc]
    rw [hnext, specTokens_append h, ih (by decide), List.replicate_succ, List.cons_append]

theorem ScalarTarget.specTokens_text (t : ScalarTarget) :
    specTokens t.text = t.type.name :: t.modifiers := by
  cases t with
  | int | float | bool | uint64 => exact specTokens_of_pointFree (by decide)
  | string trims =>
    cases trims with
    | zero => exact specTokens_of_pointFree (by decide)
    | succ n =>
      -- the last trim is the rest after the others
      have htext : (string (n + 1)).text =
          "string" ++ String.join (List.replicate n ".trim") ++ "." ++ "trim" := by
        simp [text, List.replicate_succ', String.append_assoc]
      rw [htext, specTokens_trims_append (by decide), specTokens_of_pointFree (by decide),
        ← List.replicate_succ']
      rfl

namespace Target

theorem parse_text (t : Target) : Spec.parse t.text = .ok t.toSpec := by
  cases t with
  | scalar t => exact Spec.parse_of_specTokens (.scalar t.type) t.specTokens_text
  | array => exact Spec.parse_name .array
  | arrayOf e =>
    rw [text, ← Tag.array_append, Spec.parse_name_append, e.specTokens_text]
    rfl

/-- The name of every type is a target by itself. -/
theorem exists_text_eq_name (tag : Tag) : ∃ t : Target, t.text = tag.name := by
  cases tag with
  | array => exact ⟨.array, rfl⟩
  | scalar type =>
    cases type with
    | int => exact ⟨.scalar .int, rfl⟩
    | float => exact ⟨.scalar .float, rfl⟩
    | bool => exact ⟨.scalar .bool, rfl⟩
    | string => exact ⟨.scalar (.string 0), rfl⟩
    | uint64 => exact ⟨.scalar .uint64, rfl⟩

theorem firstToken_text_arrayOf (e : ScalarTarget) : firstToken (arrayOf e).text = "array" := by
  rw [text, ← Tag.array_append, firstToken_append Tag.array.pointFree_name]
  rfl

end Target

/-! ## A text has one target -/

theorem Scalar.name_inj {type type' : Scalar} : type.name = type'.name ↔ type = type' := by
  refine ⟨fun h => ?_, congrArg name⟩
  have hname : ofName? type.name = some type := ofName?_eq_some_iff.2 rfl
  rw [ofName?_eq_some_iff.2 h, Option.some.injEq] at hname
  exact hname.symm

theorem ScalarTarget.eq_of_type_of_modifiers {t u : ScalarTarget} (htype : t.type = u.type)
    (hmodifiers : t.modifiers = u.modifiers) : t = u := by
  cases t with
  | int | float | bool | uint64 => cases u <;> first | rfl | cases htype
  | string trims =>
    cases u with
    | int | float | bool | uint64 => cases htype
    | string trims' =>
      have htrims := congrArg List.length hmodifiers
      rw [modifiers, modifiers, List.length_replicate, List.length_replicate] at htrims
      rw [htrims]

namespace Target

theorem toSpec_inj {t u : Target} : t.toSpec = u.toSpec ↔ t = u := by
  refine ⟨fun h => ?_, congrArg _⟩
  cases t <;> cases u <;> simp only [toSpec, Spec.mk.injEq, Tag.scalar.injEq, List.cons.injEq,
    reduceCtorEq, false_and, and_false, true_and] at h
  case scalar.scalar t u => rw [ScalarTarget.eq_of_type_of_modifiers h.1 h.2]
  case array.array => rfl
  case arrayOf.arrayOf e f =>
    rw [ScalarTarget.eq_of_type_of_modifiers (Scalar.name_inj.1 h.1) h.2]

theorem text_inj {t u : Target} : t.text = u.text ↔ t = u := by
  refine ⟨fun h => toSpec_inj.1 ?_, congrArg _⟩
  have hparse := t.parse_text
  rw [h, u.parse_text] at hparse
  exact (Except.ok.inj hparse).symm

end Target

/-! ## Checking the spec of a target -/

namespace Spec

variable {s : Spec}

theorem textModifiers_of_trims {trims : Nat} (h : s.modifiers = List.replicate trims "trim") :
    s.textModifiers = .ok (List.replicate trims .trim) := by
  rw [textModifiers, h]
  generalize s.text = text
  clear h
  induction trims with
  | zero => rfl
  | succ n ih =>
    rw [List.replicate_succ, List.mapM_cons, ih]
    rfl

/-- The first token that is no trim is reported, whatever stands after it. -/
theorem textModifiers_of_other {trims : Nat} {token : String} {rest : List String}
    (h : s.modifiers = List.replicate trims "trim" ++ token :: rest) (ht : token ≠ "trim") :
    s.textModifiers = .error ⟨.unknownModifier token, some s.text⟩ := by
  rw [textModifiers, h]
  generalize s.text = text
  clear h
  induction trims with
  | zero =>
    rw [List.replicate_zero, List.nil_append, List.mapM_cons]
    simp only [TextModifier.ofToken?, if_neg ht]
    rfl
  | succ n ih =>
    rw [List.replicate_succ, List.cons_append, List.mapM_cons, ih]
    rfl

end Spec

theorem ScalarTarget.checkScalar_of_modifiers (t : ScalarTarget) {s : Spec}
    (h : s.modifiers = t.modifiers) : s.checkScalar t.type = .ok () := by
  cases t with
  | int | float | bool | uint64 =>
    simp [type, Spec.checkScalar, Spec.expectNoModifiers, Spec.modifierText?, h, modifiers]
  | string trims =>
    rw [type, Spec.checkScalar, Spec.textModifiers_of_trims h]
    rfl

namespace Target

theorem element?_arrayOf (e : ScalarTarget) :
    (arrayOf e).toSpec.element? = .ok (some e.toElement) := by
  have hcheck : e.toElement.check = .ok () := e.checkScalar_of_modifiers rfl
  have hname : Scalar.ofName? e.type.name = some e.type := Scalar.ofName?_eq_some_iff.2 rfl
  simp only [toSpec, Spec.element?, if_neg (Tag.name_scalar_ne_array e.type), hname]
  rw [← ScalarTarget.toElement, hcheck]
  rfl

theorem check_toSpec (t : Target) : t.toSpec.check = .ok () := by
  cases t with
  | scalar t => exact t.checkScalar_of_modifiers rfl
  | array => rfl
  | arrayOf e =>
    rw [Spec.check, toSpec, ← toSpec, element?_arrayOf]
    rfl

end Target

end LooseTypes
