import LooseTypes.Proofs.Coercion.Soundness
import LooseTypes.Proofs.KeyedList.Visits
import LooseTypes.Proofs.Spec.Text
import Mathlib.Logic.Function.Iterate

/-!
# Levels of coercion

The spec of the elements of an array can be had from the text of the modifiers: a check or a coercion
joins them, reads the text as a spec and goes on with that spec, which is no part of the one before.
`checkLevel` and `coerceLevel` are one level of these recursions, over whatever does the next level.
Joining keeps the first modifier, which is the type that is read and not `array`
(`modifiers_of_rereadElement`). So the next level is the last: two levels are the check and the
coercion, whatever stands below them (`iterate_checkLevel`, `run_iterate_coerceLevel`). The coercions
that are made on the way are the `calls`, each with its event (`Target.events_coerce`).
-/

namespace LooseTypes

namespace Spec

variable {s : Spec}

theorem textModifiers_eq_error {e : SpecError} (h : s.textModifiers = .error e) :
    ∃ token, e = ⟨.unknownModifier token, some s.text⟩ := by
  rw [textModifiers] at h
  generalize s.modifiers = tokens at h
  induction tokens with
  | nil => cases h
  | cons token rest ih =>
    rw [List.mapM_cons, bind_eq_error_iff] at h
    rcases h with h | ⟨modifier, -, h⟩
    · cases htoken : TextModifier.ofToken? token with
      | none =>
        rw [htoken] at h
        cases h
        exact ⟨token, rfl⟩
      | some modifier =>
        rw [htoken] at h
        cases h
    · exact ih (bind_pure_eq_error_iff.1 h)

/-- The check of a scalar type looks up no name, so there is no event to note. -/
theorem ofSpec_checkScalar (type : Scalar) (s : Spec) :
    Traced.ofSpec (s.checkScalar type) = .ofExcept (s.checkScalar type) := by
  cases type with
  | string =>
    rw [checkScalar, Traced.ofSpec_bind_pure]
    cases h : s.textModifiers with
    | ok modifiers => rfl
    | error e =>
      obtain ⟨token, rfl⟩ := textModifiers_eq_error h
      rfl
  | int | float | bool | uint64 =>
    rw [checkScalar, expectNoModifiers]
    cases s.modifierText? <;> rfl

/-! ## Levels -/

/-- The spec of the elements, read again from the text of the modifiers and checked by `check`. -/
def rereadElement (check : Spec → Traced SpecError Unit) (s : Spec) :
    Traced SpecError (Option Spec) :=
  match s.modifierText? with
  | none => return none
  | some text =>
    if s.modifiers.head? = some Tag.array.name then .ofExcept (.error ⟨.nestedArray, some s.text⟩)
    else do
      let e ← .ofSpec (parse text)
      check e
      return some e

/-- One level of the check, over the check of the spec of the elements. -/
def checkLevel (next : Spec → Traced SpecError Unit) (s : Spec) : Traced SpecError Unit :=
  match s.tag with
  | .scalar type => .ofExcept (s.checkScalar type)
  | .array => do
    let _ ← s.rereadElement next
    return ()

/-- A coercion that notes the coercions it makes. -/
abbrev NotedCoercion := Spec → Value → StateT (List (Spec × Value)) (Traced SpecError) Value

/-- One level of the coercion, over the coercion of the elements. -/
def coerceLevel (check : Spec → Traced SpecError Unit) (next : NotedCoercion) :
    NotedCoercion := fun s v => do
  modify (· ++ [(s, v)])
  Traced.emit (ε := SpecError) (.coercing s.text v.kind)
  match s.tag with
  | .scalar type => Traced.ofExcept (s.coerceScalar type v)
  | .array =>
    match ← s.rereadElement check with
    | none => return .list v.toList
    | some e => return .list (← v.toList.mapValuesM (next e))

/-! ## The element spec that is read -/

theorem modifiers_of_rereadElement {check : Spec → Traced SpecError Unit} {e : Spec}
    (hs : ∀ token ∈ s.modifiers, PointFree token)
    (h : (s.rereadElement check).outcome = .ok (some e)) :
    s.modifiers = e.tag.name :: e.modifiers ∧ e.tag ≠ .array := by
  unfold rereadElement at h
  split at h
  next => cases h
  next rest hrest =>
    obtain ⟨hne, rfl⟩ : s.modifiers ≠ [] ∧ joinTokens s.modifiers = rest := by
      simpa [modifierText?] using hrest
    split at h
    next => cases h
    next hhead =>
      obtain ⟨e', hparse, h⟩ := Traced.outcome_bind_eq_ok_iff.1 h
      obtain ⟨-, -, h⟩ := Traced.outcome_bind_eq_ok_iff.1 h
      cases h
      rw [Traced.outcome_ofSpec, parse_eq_ok_iff_specTokens, specTokens_joinTokens hs hne] at hparse
      refine ⟨hparse, fun harray => hhead ?_⟩
      rw [hparse, harray, List.head?_cons]

theorem rereadElement_eq {check : Spec → Traced SpecError Unit}
    (hcheck : ∀ e : ElementSpec, check e.toSpec = .ofSpec e.check)
    (hs : ∀ token ∈ s.modifiers, PointFree token) :
    s.rereadElement check =
      Traced.ofSpec s.element? >>= fun e => pure (e.map ElementSpec.toSpec) := by
  obtain ⟨tag, modifiers⟩ := s
  cases modifiers with
  | nil => rfl
  | cons head rest =>
    by_cases harray : head = Tag.array.name
    · subst harray
      rfl
    · have htokens : specTokens (joinTokens (head :: rest)) = head :: rest :=
        specTokens_joinTokens hs (List.cons_ne_nil _ _)
      simp only [rereadElement, element?, modifierText?, List.isEmpty_cons, Bool.false_eq_true,
        if_false, List.head?_cons, Option.some.injEq, if_neg harray, parse, htokens, Tag.ofName?]
      cases Scalar.ofName? head with
      | none => rfl
      | some type =>
        simp only [Option.map_some, Traced.ofSpec_bind_pure]
        rw [← hcheck, bind_assoc]
        rfl

theorem checkLevel_toSpec (next : Spec → Traced SpecError Unit) (e : ElementSpec) :
    checkLevel next e.toSpec = .ofSpec e.check :=
  (ofSpec_checkScalar e.type e.toSpec).symm

theorem checkLevel_checkLevel (next : Spec → Traced SpecError Unit)
    (hs : ∀ token ∈ s.modifiers, PointFree token) :
    checkLevel (checkLevel next) s = .ofSpec s.check := by
  obtain ⟨tag, modifiers⟩ := s
  cases tag with
  | scalar type => exact (ofSpec_checkScalar type _).symm
  | array =>
    rw [checkLevel, rereadElement_eq (checkLevel_toSpec next) hs, check, Traced.ofSpec_bind_pure,
      bind_assoc]
    rfl

/-! ## The coercions that are made -/

/-- The coercions that one by a spec makes: itself, and one of each element by their spec. -/
def calls (s : Spec) (v : Value) : List (Spec × Value) :=
  (s, v) :: match s.tag, s.element? with
    | .array, .ok (some e) => v.toList.values.map fun x => (e.toSpec, x)
    | _, _ => []

theorem run_coerceLevel_scalar (check : Spec → Traced SpecError Unit) (next : NotedCoercion)
    {type : Scalar} (htag : s.tag = .scalar type) (v : Value) (before : List (Spec × Value)) :
    (coerceLevel check next s v).run before = do return (← s.coerce v, before ++ [(s, v)]) := by
  simp [coerceLevel, coerce, htag, StateT.run_bind]

theorem run_coerceLevel {check : Spec → Traced SpecError Unit} {next : NotedCoercion}
    (hcheck : ∀ e : ElementSpec, check e.toSpec = .ofSpec e.check)
    (hnext : ∀ (e : ElementSpec) (x : Value) (before : List (Spec × Value)),
      (next e.toSpec x).run before = do return (← e.coerce x, before ++ [(e.toSpec, x)]))
    (hs : ∀ token ∈ s.modifiers, PointFree token) (v : Value) (before : List (Spec × Value)) :
    (coerceLevel check next s v).run before = do return (← s.coerce v, before ++ s.calls v) := by
  cases htag : s.tag with
  | scalar type =>
    rw [run_coerceLevel_scalar check next htag, calls, htag]
  | array =>
    simp only [coerceLevel, coerce, coerceArray, htag, rereadElement_eq hcheck hs, StateT.run_bind,
      StateT.run_modify, StateT.run_monadLift, monadLift_self, pure_bind, bind_assoc]
    -- past a bad element spec nothing is called, so the calls matter only if there is a good one
    refine bind_congr fun _ => Traced.bind_congr_of_outcome fun element helement => ?_
    rw [Traced.outcome_ofSpec] at helement
    cases element with
    | none => simp only [Option.map_none, StateT.run_pure, calls, htag, helement, pure_bind]
    | some e =>
      have hitems := v.toList.run_mapValuesM_notes (hnext e) (before ++ [(s, v)])
      simp only [Option.map_some, StateT.run_bind, hitems, StateT.run_pure, calls, htag, helement,
        bind_assoc, pure_bind, List.append_assoc, List.singleton_append]

/-! ## Two levels are enough -/

theorem iterate_checkLevel (n : Nat) (bottom : Spec → Traced SpecError Unit)
    (hs : ∀ token ∈ s.modifiers, PointFree token) :
    checkLevel^[n + 2] bottom s = .ofSpec s.check := by
  rw [Function.iterate_succ_apply', Function.iterate_succ_apply']
  exact checkLevel_checkLevel _ hs

theorem run_iterate_coerceLevel (m n : Nat) (bottomCheck : Spec → Traced SpecError Unit)
    (bottom : NotedCoercion) (hs : ∀ token ∈ s.modifiers, PointFree token) (v : Value)
    (before : List (Spec × Value)) :
    ((coerceLevel (checkLevel^[m + 1] bottomCheck))^[n + 2] bottom s v).run before = do
      return (← s.coerce v, before ++ s.calls v) := by
  have hcheck : ∀ e : ElementSpec, checkLevel^[m + 1] bottomCheck e.toSpec = .ofSpec e.check := by
    intro e
    rw [Function.iterate_succ_apply']
    exact checkLevel_toSpec _ e
  -- an iterate of the check is not one of the coercion
  generalize checkLevel^[m + 1] bottomCheck = check at hcheck ⊢
  rw [Function.iterate_succ_apply', Function.iterate_succ_apply']
  refine run_coerceLevel hcheck (fun e x notes => ?_) hs v before
  exact run_coerceLevel_scalar _ _ rfl x notes

end Spec

/-! ## Events -/

theorem Target.events_coerce (t : Target) (v : Value) :
    (t.toSpec.coerce v).events =
      (t.toSpec.calls v).map fun call => .coercing call.1.text call.2.kind := by
  cases t with
  | scalar t => rfl
  | array => rfl
  | arrayOf e =>
    have hitems : (v.toList.mapValuesM e.toElement.coerce).events =
        v.toList.values.map fun x => .coercing e.toElement.toSpec.text x.kind :=
      (KeyedList.events_mapValuesM (fun x => ⟨_, e.outcome_coerce x⟩) v.toList).trans
        List.map_eq_flatMap.symm
    have helement : (Traced.ofSpec (arrayOf e).toSpec.element?).outcome =
        .ok (some e.toElement) := by
      rw [Traced.outcome_ofSpec, element?_arrayOf]
    have harray : ((arrayOf e).toSpec.coerceArray v).events =
        v.toList.values.map fun x => .coercing e.toElement.toSpec.text x.kind := by
      rw [Spec.coerceArray, Traced.events_bind_of_ok helement, hitems, element?_arrayOf]
      rfl
    have hcoerce : ((arrayOf e).toSpec.coerce v).events =
        .coercing (arrayOf e).toSpec.text v.kind :: ((arrayOf e).toSpec.coerceArray v).events :=
      congrArg _ (Traced.events_bind_pure _)
    rw [hcoerce, harray, Spec.calls, element?_arrayOf]
    simp [toSpec]

/-! ## The second level is the last -/

namespace Spec

theorem specTokens_text {s : Spec} (hs : ∀ token ∈ s.modifiers, PointFree token) :
    specTokens s.text = s.tag.name :: s.modifiers :=
  specTokens_joinTokens (List.forall_mem_cons.2 ⟨s.tag.pointFree_name, hs⟩) (List.cons_ne_nil _ _)

/-- What is read again as the spec of the elements is no array and has all tokens of the spec but
the first one. So a check or a coercion by a spec that was read goes down one level at most, whatever
stands below it; and a coercion by a good spec `array.e` makes one by `e` of each item of the list
that the value is, and none of an item within an item. -/
theorem element_level_is_last {text : String} {p : Spec} (hp : parse text = .ok p) :
    (∀ (check : Spec → Traced SpecError Unit) (e : Spec),
      (p.rereadElement check).outcome = .ok (some e) →
        e.tag ≠ .array ∧ specTokens text = p.tag.name :: specTokens e.text ∧
          (specTokens e.text).length + 1 = (specTokens text).length) ∧
    (∀ (n : Nat) (bottom : Spec → Traced SpecError Unit),
      p.rereadElement (checkLevel^[n + 1] bottom) =
          Traced.ofSpec p.element? >>= (fun e => pure (e.map ElementSpec.toSpec)) ∧
        checkLevel^[n + 2] bottom p = .ofSpec p.check) ∧
    (∀ (m n : Nat) (bottomCheck : Spec → Traced SpecError Unit) (bottom : NotedCoercion) (v : Value),
      ((coerceLevel (checkLevel^[m + 1] bottomCheck))^[n + 2] bottom p v).run [] = do
        return (← p.coerce v, p.calls v)) ∧
    ∀ e : ElementSpec, p.tag = .array → p.element? = .ok (some e) → ∀ v : Value,
      (∃ r, (p.coerce v).outcome = .ok r) ∧
        p.calls v = (p, v) :: v.toList.values.map (fun x => (e.toSpec, x)) ∧
        (p.calls v).length = 1 + v.toList.size ∧
        (p.coerce v).events = (p.calls v).map fun call => .coercing call.1.text call.2.kind := by
  obtain ⟨rfl, hs⟩ := parse_eq_ok_iff.1 hp
  refine ⟨fun check e he => ?_, fun n bottom => ⟨?_, iterate_checkLevel n bottom hs⟩,
    fun m n bottomCheck bottom v => run_iterate_coerceLevel m n bottomCheck bottom hs v [],
    fun e htag he v => ?_⟩
  · obtain ⟨hmodifiers, harray⟩ := modifiers_of_rereadElement hs he
    have htokens : specTokens p.text = p.tag.name :: specTokens e.text := by
      rw [specTokens_text hs, hmodifiers, specTokens_text]
      exact (List.forall_mem_cons.1 (hmodifiers ▸ hs)).2
    exact ⟨harray, htokens, by rw [htokens, List.length_cons]⟩
  · rw [Function.iterate_succ_apply']
    exact rereadElement_eq (checkLevel_toSpec _) hs
  · have hcheck : p.check = .ok () := by
      rw [check, htag, he]
      rfl
    obtain ⟨t, -, rfl⟩ := exists_toSpec_eq_of_check hp hcheck
    have hcalls : t.toSpec.calls v =
        (t.toSpec, v) :: v.toList.values.map fun x => (e.toSpec, x) := by
      rw [calls, htag, he]
    refine ⟨⟨_, t.outcome_coerce v⟩, hcalls, ?_, t.events_coerce v⟩
    rw [hcalls, List.length_cons, List.length_map, Nat.add_comm, KeyedList.values,
      List.length_map]
    rfl

theorem element_level_is_last_nested_list :
    let p : Spec := ⟨.array, ["string", "trim"]⟩
    let e : ElementSpec := ⟨.string, ["trim"]⟩
    let inner : Value := .list (.ofList [.str " x ", .null])
    let v : Value := .list (.ofEntries [(.name "a", inner), (.index 3, .str " y ")])
    parse "array.string.trim" = .ok p ∧ p.tag = .array ∧ p.element? = .ok (some e) ∧
      (p.rereadElement (checkLevel fun _ => pure ())).outcome = .ok (some e.toSpec) ∧
      (specTokens e.toSpec.text).length + 1 = (specTokens "array.string.trim").length ∧
      p.calls v = [(p, v), (e.toSpec, inner), (e.toSpec, .str " y ")] ∧
      (p.coerce v).events = [.coercing "array.string.trim" .array,
        .coercing "string.trim" .array, .coercing "string.trim" .string] := by
  intro p e inner v
  have hparse : parse "array.string.trim" = .ok p := rfl
  have helement : p.element? = .ok (some e) := rfl
  obtain ⟨hlevel, hlevels, -, hcalls⟩ := element_level_is_last hparse
  have hreread : (p.rereadElement (checkLevel fun _ => pure ())).outcome = .ok (some e.toSpec) := by
    refine (congrArg Traced.outcome (hlevels 0 fun _ => pure ()).1).trans ?_
    rw [helement]
    rfl
  obtain ⟨-, hv, -, hevents⟩ := hcalls e rfl helement v
  have hvalues : v.toList.values = [inner, .str " y "] := by
    show (KeyedList.ofEntries [(.name "a", inner), (.index 3, .str " y ")]).values = _
    rw [KeyedList.values, KeyedList.toList_ofEntries_of_nodup _ (by decide)]
    rfl
  rw [hvalues] at hv
  rw [hv] at hevents
  exact ⟨hparse, rfl, helement, hreread, (hlevel _ _ hreread).2.2, hv, hevents⟩

end Spec

end LooseTypes
