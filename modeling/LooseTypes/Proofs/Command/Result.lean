import LooseTypes.Proofs.Binary64.Whole
import LooseTypes.Proofs.Command.Coerce
import LooseTypes.Proofs.Value.Converted

/-!
# Reading a printed result

The text that the coercion command prints is read as the result with null in place of its infinities.
If it has none, the result itself comes back, and the command given this text prints it again; else
the second run prints another text, since null is coerced to zero.
-/

namespace LooseTypes

/-! ## The keys of a spec set -/

namespace SpecSet

theorem map_fst_of_mapM_fieldSpec {entries : List (Key × Value)} {specs : List (Key × String)}
    (h : entries.mapM ofValue.fieldSpec = .ok specs) : specs.map (·.1) = entries.map (·.1) := by
  induction entries generalizing specs with
  | nil =>
    cases h
    rfl
  | cons entry entries ih =>
    obtain ⟨key, v⟩ := entry
    rw [List.mapM_cons] at h
    obtain ⟨field, hfield, h⟩ := bind_eq_ok_iff.1 h
    obtain ⟨rest, hrest, h⟩ := bind_eq_ok_iff.1 h
    cases v <;> cases hfield
    cases h
    rw [List.map_cons, List.map_cons, ih hrest]

theorem isNormal_of_ofValue {n : Nat} {v : Value} {set : SpecSet} (hv : v.Portable n)
    (h : ofValue v = .ok set) : ∀ key ∈ set.keys, key.IsNormal := by
  cases hv with
  | null | bool | int | float => cases h
  | str =>
    cases h
    exact fun key hkey => absurd hkey List.not_mem_nil
  | list _ hkeys =>
    obtain ⟨specs, hspecs, h⟩ := bind_eq_ok_iff.1 h
    cases h
    rw [keys, map_fst_of_mapM_fieldSpec hspecs]
    exact hkeys

/-- No field of specs that come from an argument has a name that reads as an index. -/
theorem isNormal_of_ofArgument {argument : String} {set : SpecSet}
    (h : ofArgument argument = .ok set) : ∀ key ∈ set.keys, key.IsNormal := by
  unfold ofArgument at h
  split at h
  next =>
    split at h
    next specs hspecs =>
      have hset : ofValue specs = .ok set := mapError_eq_ok_iff.1 h
      exact isNormal_of_ofValue (Value.portable_of_ofJsonText? hspecs) hset
    next => cases h
  next =>
    cases h
    exact fun key hkey => absurd hkey List.not_mem_nil

end SpecSet

/-! ## The command on its own result -/

/-- A result has the declared types. Its text is read as the result with each of its numbers as it is
read from its written form, and null in place of its infinities; so if its numbers are finite, what is
read has the declared types too. The command prints the text again exactly if the result itself is
read. -/
theorem coerceArguments_result_reads_back {inputs : Inputs} {data specs text : String}
    (h : (coerceArguments inputs data specs).outcome = .ok text) :
    ∃ (targets : TargetSet) (json : String) (v r : Value),
      SpecSet.ofArgument specs = .ok targets.specs ∧
      ((Source.ofArgument data).read inputs).outcome = .ok json ∧
      Value.ofJsonText? json = some v ∧ (v.coerceBy targets.specs).outcome = .ok r ∧
      targets.Inhabits r ∧ Value.ofJsonText? text = some (r.readBack Json.rereadRank) ∧
      ((∀ x, r.Contains (.float x) → x.isFinite = true) →
        targets.Inhabits (r.readBack Json.rereadRank)) ∧
      ∀ inputs' : Inputs, (coerceArguments inputs' text specs).outcome = .ok text ↔
        r.readBack Json.rereadRank = r := by
  obtain ⟨set, json, v, r, hset, hjson, hv, hr, rfl⟩ := outcome_coerceArguments_eq_ok_iff.1 h
  obtain ⟨targets, rfl⟩ := TargetSet.exists_of_coerceBy hr
  rw [targets.outcome_coerceBy, Except.ok.injEq] at hr
  subst hr
  have hportable : v.Portable 127 := Value.portable_of_ofJsonText? hv
  have hkeys : ∀ key ∈ targets.specs.keys, key.IsNormal := SpecSet.isNormal_of_ofArgument hset
  have hresult := targets.portable_convert hkeys hportable
  have hread : Value.ofJsonText? (targets.convert v).jsonText =
      some ((targets.convert v).readBack Json.rereadRank) := Value.ofJsonText?_jsonText hresult
  refine ⟨targets, json, v, targets.convert v, hset, hjson, hv, targets.outcome_coerceBy v,
    targets.inhabits_convert v, hread, (targets.inhabits_convert v).readBack, fun inputs' => ?_⟩
  have hrun : (coerceArguments inputs' (targets.convert v).jsonText specs).outcome =
      .ok (targets.convert ((targets.convert v).readBack Json.rereadRank)).jsonText :=
    outcome_coerceArguments_of_ofJsonText? hset hread (targets.outcome_coerceBy _)
  rw [hrun, Except.ok.injEq]
  constructor
  · intro hsame
    have hagain := targets.portable_convert hkeys (Value.portable_of_ofJsonText? hread)
    exact targets.readBack_convert_eq hportable
      (Value.readBack_id_eq_of_jsonText_eq hagain hresult hsame)
  · intro hself
    rw [hself, targets.convert_convert]

theorem coerceArguments_result_reads_back_array :
    (coerceArguments ⟨.ok .empty, fun _ => .error .notUtf8⟩
        (Value.list (.ofList [.str "1.5x", .int 2])).jsonText "array.float").outcome =
      .ok ((Target.arrayOf .float).convert (.list (.ofList [.str "1.5x", .int 2]))).jsonText ∧
    ∃ (targets : TargetSet) (json : String) (v r : Value),
      SpecSet.ofArgument "array.float" = .ok targets.specs ∧
      ((Source.ofArgument (Value.list (.ofList [.str "1.5x", .int 2])).jsonText).read
        ⟨.ok .empty, fun _ => .error .notUtf8⟩).outcome = .ok json ∧
      Value.ofJsonText? json = some v ∧ (v.coerceBy targets.specs).outcome = .ok r ∧
      targets.Inhabits r ∧
      Value.ofJsonText? ((Target.arrayOf .float).convert
        (.list (.ofList [.str "1.5x", .int 2]))).jsonText = some (r.readBack Json.rereadRank) ∧
      ((∀ x, r.Contains (.float x) → x.isFinite = true) →
        targets.Inhabits (r.readBack Json.rereadRank)) ∧
      ∀ inputs' : Inputs,
        (coerceArguments inputs' ((Target.arrayOf .float).convert
          (.list (.ofList [.str "1.5x", .int 2]))).jsonText "array.float").outcome =
            .ok ((Target.arrayOf .float).convert
              (.list (.ofList [.str "1.5x", .int 2]))).jsonText ↔
          r.readBack Json.rereadRank = r := by
  have hportable : (Value.list (.ofList [.str "1.5x", .int 2])).Portable 127 :=
    Value.portable_ofList (List.forall_mem_cons.2
      ⟨.str _ _, List.forall_mem_singleton.2 (.int _ _)⟩)
  have hread := hportable.ofJsonText?_jsonText
  have hself : (Value.list (.ofList [.str "1.5x", .int 2])).readBack Json.rereadRank =
      .list (.ofList [.str "1.5x", .int 2]) := by
    rw [Value.readBack_list, KeyedList.mapValues_eq_self_iff.2 fun v hv => ?_]
    have hmem := KeyedList.mem_of_mem_values_ofList hv
    simp only [List.mem_cons, List.not_mem_nil, or_false] at hmem
    obtain rfl | rfl := hmem <;> rfl
  rw [hself] at hread
  have hrun : (coerceArguments ⟨.ok .empty, fun _ => .error .notUtf8⟩
      (Value.list (.ofList [.str "1.5x", .int 2])).jsonText "array.float").outcome =
        .ok ((Target.arrayOf .float).convert (.list (.ofList [.str "1.5x", .int 2]))).jsonText :=
    outcome_coerceArguments_of_ofJsonText? rfl hread
      ((TargetSet.single (.arrayOf .float)).outcome_coerceBy _)
  exact ⟨hrun, coerceArguments_result_reads_back hrun⟩

/-- A second run may print another text: null is printed for an infinity and is coerced to zero, and
the number that is read for a finite one may be a neighbour of it. -/
theorem coerceArguments_result_changes :
    (¬ ∀ (inputs : Inputs) (data specs text : String),
      (coerceArguments inputs data specs).outcome = .ok text →
        ∃ (targets : TargetSet) (v : Value), SpecSet.ofArgument specs = .ok targets.specs ∧
          Value.ofJsonText? text = some v ∧ targets.Inhabits v ∧
          (coerceArguments inputs text specs).outcome = .ok text) ∧
    (coerceArguments ⟨.ok .empty, fun _ => .error .notUtf8⟩
        "\"51.248178375505404\"" "float").outcome = .ok "51.248178375505404" ∧
    (coerceArguments ⟨.ok .empty, fun _ => .error .notUtf8⟩
        "51.248178375505404" "float").outcome = .ok "51.24817837550541" := by
  refine ⟨fun h => ?_, by decide +kernel, by decide +kernel⟩
  have hread : Value.ofJsonText? (Value.str (String.ofList (digits (10 ^ 400)))).jsonText =
      some (.str (String.ofList (digits (10 ^ 400)))) := Value.ofJsonText?_jsonText (.str _ _)
  have hinfinite : (Value.str (String.ofList (digits (10 ^ 400)))).toBinary64 =
      .infinite false := by
    rw [Binary64.toBinary64_digits]
    exact Binary64.ofRatio_eq_infinite false (by decide +kernel)
  have hcoerce := (TargetSet.single (.scalar .float)).outcome_coerceBy
    (.str (String.ofList (digits (10 ^ 400))))
  rw [TargetSet.convert, Target.convert, ScalarTarget.convert, hinfinite] at hcoerce
  have hrun : (coerceArguments ⟨.ok .empty, fun _ => .error .notUtf8⟩
      (Value.str (String.ofList (digits (10 ^ 400)))).jsonText "float").outcome = .ok "null" :=
    outcome_coerceArguments_of_ofJsonText? rfl hread hcoerce
  have hagain : (coerceArguments ⟨.ok .empty, fun _ => .error .notUtf8⟩ "null" "float").outcome =
      .ok "0.0" := by decide +kernel
  obtain ⟨targets, v, -, -, -, hsame⟩ := h _ _ _ _ hrun
  rw [hagain] at hsame
  exact absurd hsame (by decide)

end LooseTypes
