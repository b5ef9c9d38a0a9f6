import LooseTypes.Spec.Tag

/-!
# Specs

A spec is written as tokens between points: the name of a type, and modifiers. Reading checks the
type alone and keeps the modifiers as they stand, empty ones too; which modifiers a type takes is the
matter of `Spec.check`. The modifiers of an array are the spec of its elements, whose type is a scalar
one.

A malformed spec is reported by what is wrong with it and the text of the spec, if there is one.
Coercion has no other failure.
-/

namespace LooseTypes

/-! ## Malformed specs -/

inductive SpecProblem where
  /-- There is no token. -/
  | empty
  /-- The first token names no type. -/
  | unknownType (name : String)
  /-- The type takes no modifiers. -/
  | unexpectedModifiers (tag : Tag) (modifiers : String)
  /-- The token is no modifier of `string`. -/
  | unknownModifier (modifier : String)
  /-- The elements of an array are arrays again. -/
  | nestedArray
  /-- The value that holds the specs is neither a text nor a list. -/
  | invalidSpecs (got : Kind)
  /-- A field has a spec that is not a text. -/
  | nonStringSpec (field : String) (got : Kind)
  deriving DecidableEq, Repr

def SpecProblem.message : SpecProblem → String
  | .empty => "spec has no type"
  | .unknownType name => "unknown type `" ++ name ++ "`"
  | .unexpectedModifiers tag modifiers =>
    "type `" ++ tag.name ++ "` takes no modifiers, found `" ++ modifiers ++ "`"
  | .unknownModifier modifier => "unknown string modifier `" ++ modifier ++ "`"
  | .nestedArray => "nested `array.array` specs are not supported"
  | .invalidSpecs got =>
    "specs must be a spec string or a mapping of spec strings, got " ++ got.name
  | .nonStringSpec field got =>
    "spec for field `" ++ field ++ "` must be a string, got " ++ got.name

structure SpecError where
  problem : SpecProblem
  /-- The text of the spec, if the problem lies in a single one. -/
  spec : Option String
  deriving DecidableEq, Repr

def SpecError.message (e : SpecError) : String :=
  match e.spec with
  | some text => "malformed spec `" ++ text ++ "`: " ++ e.problem.message
  | none => "malformed specs: " ++ e.problem.message

/-! ## Reading and checking -/

/-- The tokens of a text, split at each point. -/
def specTokens (text : String) : List String := (text.toList.splitOn '.').map String.ofList

def joinTokens (tokens : List String) : String := ".".intercalate tokens

theorem joinTokens_specTokens (text : String) : joinTokens (specTokens text) = text := by
  apply String.toList_inj.1
  simp [joinTokens, specTokens, String.toList_intercalate, List.map_map, Function.comp_def,
    List.intercalate_splitOn]

structure Spec where
  tag : Tag
  modifiers : List String
  deriving DecidableEq, Repr

inductive TextModifier where
  | trim
  deriving DecidableEq, Repr

def TextModifier.ofToken? (token : String) : Option TextModifier :=
  if token = "trim" then some .trim else none

structure ElementSpec where
  type : Scalar
  modifiers : List String
  deriving DecidableEq, Repr

namespace Spec

def text (s : Spec) : String := joinTokens (s.tag.name :: s.modifiers)

def parse (text : String) : Except SpecError Spec :=
  match specTokens text with
  | [] => .error ⟨.empty, some text⟩
  | head :: rest =>
    match Tag.ofName? head with
    | some tag => .ok ⟨tag, rest⟩
    | none => .error ⟨.unknownType head, some text⟩

def modifierText? (s : Spec) : Option String :=
  if s.modifiers.isEmpty then none else some (joinTokens s.modifiers)

def expectNoModifiers (s : Spec) : Except SpecError Unit :=
  match s.modifierText? with
  | none => .ok ()
  | some modifiers => .error ⟨.unexpectedModifiers s.tag modifiers, some s.text⟩

def textModifiers (s : Spec) : Except SpecError (List TextModifier) :=
  s.modifiers.mapM fun token =>
    match TextModifier.ofToken? token with
    | some modifier => .ok modifier
    | none => .error ⟨.unknownModifier token, some s.text⟩

def checkScalar (type : Scalar) (s : Spec) : Except SpecError Unit :=
  match type with
  | .string => do
    let _ ← s.textModifiers
    return ()
  | .int | .float | .bool | .uint64 => s.expectNoModifiers

end Spec

namespace ElementSpec

def toSpec (e : ElementSpec) : Spec := ⟨.scalar e.type, e.modifiers⟩

def check (e : ElementSpec) : Except SpecError Unit := e.toSpec.checkScalar e.type

end ElementSpec

namespace Spec

/-- Reads and checks the modifiers as the spec of the elements; there is none without modifiers. -/
def element? (s : Spec) : Except SpecError (Option ElementSpec) :=
  match s.modifiers with
  | [] => .ok none
  | head :: rest =>
    if head = Tag.array.name then .error ⟨.nestedArray, some s.text⟩
    else
      match Scalar.ofName? head with
      | none => .error ⟨.unknownType head, some (joinTokens s.modifiers)⟩
      | some type => do
        ElementSpec.check ⟨type, rest⟩
        return some ⟨type, rest⟩

/-- Checks the modifiers of a spec without coercing anything. -/
def check (s : Spec) : Except SpecError Unit :=
  match s.tag with
  | .scalar type => s.checkScalar type
  | .array => do
    let _ ← s.element?
    return ()

theorem text_of_parse {text : String} {s : Spec} (h : parse text = .ok s) : s.text = text := by
  unfold parse at h
  split at h
  next => cases h
  next head rest ht =>
    split at h
    next tag htag =>
      cases h
      simp only [Spec.text, ← Tag.ofName?_eq_some_iff.1 htag, ← ht, joinTokens_specTokens]
    next => cases h

end Spec

end LooseTypes
