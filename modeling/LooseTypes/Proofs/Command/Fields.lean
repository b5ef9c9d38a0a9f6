import LooseTypes.Proofs.Coercion.TargetSet
import LooseTypes.Proofs.Command.Coerce
import LooseTypes.Proofs.Json.Accepted
import LooseTypes.Proofs.Value.Members
import Mathlib.Tactic.Choose

/-!
# Fields by name, from text to text

If the specs argument is a JSON object of good specs, the coercion command takes what the data have
under each of its names, coerces it by the last spec of the name, and prints the results under the
names (`coerceArguments_fields`). That the names become keys on the way is not to be seen.
-/

namespace LooseTypes

/-! ## Specs from an object -/

theorem isWhiteSpace_of_isBlank {c : Char} (h : Json.isBlank c = true) : isWhiteSpace c = true := by
  simp only [Json.isBlank, Bool.or_eq_true, beq_iff_eq] at h
  rcases h with ((rfl | rfl) | rfl) | rfl <;> decide

theorem dropWhile_eq_cons_of_imp {p q : Char → Bool} (h : ∀ c, p c = true → q c = true) {c : Char}
    {text rest : List Char} (hc : q c = false) (hp : text.dropWhile p = c :: rest) :
    text.dropWhile q = c :: rest := by
  induction text with
  | nil => cases hp
  | cons first text ih =>
    cases hfirst : p first with
    | true =>
      rw [List.dropWhile_cons_of_pos hfirst] at hp
      rw [List.dropWhile_cons_of_pos (h first hfirst), ih hp]
    | false =>
      rw [List.dropWhile_cons_of_neg (by simp [hfirst])] at hp
      cases hp
      rw [List.dropWhile_cons_of_neg (by simp [hc])]

theorem isSpecsObject_of_parse? {specs : String} {members : List (String × Json)}
    (h : Json.parse? specs = some (.object members)) : isSpecsObject specs = true := by
  obtain ⟨rest, hrest⟩ := Json.exists_of_parse?_object h
  unfold isSpecsObject
  rw [dropWhile_eq_cons_of_imp (fun _ => isWhiteSpace_of_isBlank) rfl hrest]
  rfl

/-- The last member of each name is a good spec. -/
def AreGoodSpecs (members : List (String × Json)) : Prop :=
  ∀ name ∈ memberNames members, ∃ spec,
    (Json.object members).member? name = some (.str spec) ∧ Spec.verdict spec = .ok ()

/-- The fields of some names, each with the target of its name. -/
def namedTargets (names : List String) (target : String → Target) : List (Key × Target) :=
  names.map fun name => (.ofText name, target name)

section Names

variable {members : List (String × Json)}

theorem AreGoodSpecs.exists_targets (h : AreGoodSpecs members) :
    ∃ target : String → Target, ∀ name ∈ memberNames members,
      (Json.object members).member? name = some (.str (target name).text) := by
  have htarget : ∀ name, ∃ t : Target, name ∈ memberNames members →
      (Json.object members).member? name = some (.str t.text) := by
    intro name
    by_cases hname : name ∈ memberNames members
    · obtain ⟨spec, hspec, hgood⟩ := h name hname
      obtain ⟨t, rfl⟩ := Spec.verdict_eq_ok_iff.1 hgood
      exact ⟨t, fun _ => hspec⟩
    · exact ⟨.array, fun hmem => absurd hmem hname⟩
  choose target h using htarget
  exact ⟨target, h⟩

theorem mapM_fieldSpec {names : List String} (spec : String → String) :
    (names.map fun name => (Key.ofText name, Value.str (spec name))).mapM
        SpecSet.ofValue.fieldSpec =
      .ok (names.map fun name => (Key.ofText name, spec name)) := by
  rw [List.mapM_map]
  exact List.mapM_pure

/-- The specs are read as those of the fields, one for each name. -/
theorem SpecSet.ofArgument_object {specs : String} {target : String → Target}
    (hspecs : Json.parse? specs = some (.object members))
    (htarget : ∀ name ∈ memberNames members,
      (Json.object members).member? name = some (.str (target name).text)) :
    SpecSet.ofArgument specs =
      .ok (.fields (targetSpecs (namedTargets (memberNames members) target))) := by
  have hwf := KeyedList.wellFormed_ofEntries (Value.ofMembers members)
  have hentries : (KeyedList.ofEntries (Value.ofMembers members)).toList =
      (memberNames members).map fun name => (Key.ofText name, Value.str (target name).text) := by
    refine entries_eq_map hwf.nodup (Value.keys_ofEntries_ofMembers members) fun name hname => ?_
    rw [← hwf.get?_eq_lookup, Value.get?_ofEntries_ofMembers, htarget name hname]
    rfl
  have hread : Value.ofJsonText? specs = some (.list (.ofEntries (Value.ofMembers members))) := by
    rw [Value.ofJsonText?, hspecs, Option.map_some, Value.ofJson]
  rw [ofArgument, if_pos (isSpecsObject_of_parse? hspecs), hread]
  show (ofValue _).mapError _ = _
  rw [ofValue, hentries, mapM_fieldSpec, targetSpecs, namedTargets, List.map_map]
  rfl

end Names

/-! ## Results under names -/

/-- The list has an entry for each name of the specs, in the order in which the names first come:
what the data have under the name, coerced by the last spec of the name. It is printed as an array
if the names are those of the positions in order, and else as an object with these names. -/
structure IsCoercedByNames (members : List (String × Json)) (data : Json)
    (items : KeyedList Value) : Prop where
  names_eq : items.keys.map Key.text = memberNames members
  coerced : ∀ entry ∈ items.toList, ∃ spec,
    (Json.object members).member? entry.1.text = some (.str spec) ∧
      ((data.valueUnder entry.1.text).coerce spec).outcome = .ok entry.2
  toJson_eq : (Value.list items).toJson =
    if memberNames members = (List.range (memberNames members).length).map positionName then
      .array (items.values.map Value.toJson)
    else .object ((memberNames members).zip (items.values.map Value.toJson))

section Results

variable {members : List (String × Json)} {names : List String} {target : String → Target}
  {v : Value} {j : Json} {text : String}

/-- No text has room for more items than there are indices. -/
theorem field_of_parse? (h : Json.parse? text = some j) (hlength : text.length < 2 ^ 63)
    (name : String) : (Value.ofJson j).field (.ofText name) = j.valueUnder name := by
  refine Value.field_ofJson (fun items hitems => ?_) name
  have hitems := Json.length_items_le (hitems ▸ h)
  omega

theorem toList_convertFields_namedTargets (hnodup : names.Nodup) (target : String → Target)
    (v : Value) :
    (v.convertFields (namedTargets names target)).toList =
      names.map fun name => (Key.ofText name, (target name).convert (v.field (.ofText name))) := by
  unfold namedTargets
  have hkeys : ((names.map fun name => (Key.ofText name, target name)).map (·.1)).Nodup := by
    rw [List.map_map]
    exact hnodup.map fun _ _ => Key.ofText_inj.1
  rw [Value.toList_convertFields_of_nodup v hkeys, List.map_map]
  rfl

theorem toJson_list_of_keys {items : KeyedList Value} (hkeys : items.keys = names.map Key.ofText)
    (hlength : names.length ≤ 2 ^ 63) :
    (Value.list items).toJson =
      if names = (List.range names.length).map positionName then
        .array (items.values.map Value.toJson)
      else .object (names.zip (items.values.map Value.toJson)) := by
  have hitems : items.toList.map (fun entry => entry.2.toJson) = items.values.map Value.toJson := by
    rw [KeyedList.values, List.map_map]
    rfl
  have hmembers : items.toList.map (fun entry => (entry.1.text, entry.2.toJson)) =
      names.zip (items.values.map Value.toJson) := by
    rw [← Key.map_text_map_ofText names, ← hkeys, KeyedList.keys, KeyedList.values, List.map_map,
      List.map_map, List.zip_map']
    rfl
  have hpositions := arePositions_map_ofText_iff hlength
  rw [← hkeys, ← KeyedList.isSequential_iff] at hpositions
  rw [Value.toJson_list, hitems, hmembers]
  simp only [hpositions]

theorem isCoercedByNames_convertFields (hspecs : ∀ name ∈ memberNames members,
      (Json.object members).member? name = some (.str (target name).text))
    (hv : ∀ name, v.field (.ofText name) = j.valueUnder name) (hlength : members.length ≤ 2 ^ 63) :
    IsCoercedByNames members j (v.convertFields (namedTargets (memberNames members) target)) := by
  have hlist := toList_convertFields_namedTargets (nodup_memberNames members) target v
  have hkeys : (v.convertFields (namedTargets (memberNames members) target)).keys =
      (memberNames members).map Key.ofText := by
    rw [KeyedList.keys, hlist, List.map_map]
    rfl
  refine ⟨by rw [hkeys, Key.map_text_map_ofText], fun entry hentry => ?_, ?_⟩
  · rw [hlist] at hentry
    obtain ⟨name, hname, rfl⟩ := List.mem_map.1 hentry
    refine ⟨(target name).text, ?_, ?_⟩
    · rw [Key.text_ofText, hspecs name hname]
    · rw [Key.text_ofText, ← hv, Value.outcome_coerce_text]
  · exact toJson_list_of_keys hkeys (Nat.le_trans (length_memberNames_le members) hlength)

end Results

/-- With an object of good specs the command succeeds for all data that are JSON, and prints what the
data have under each of the names, coerced. Nothing else in the data counts. The texts are shorter
than there are indices, as all texts in memory are. -/
theorem coerceArguments_fields {inputs : Inputs} {data specs text : String}
    {members : List (String × Json)} {j : Json} (hspecs : Json.parse? specs = some (.object members))
    (hgood : AreGoodSpecs members)
    (hread : ((Source.ofArgument data).read inputs).outcome = .ok text)
    (hj : Json.parse? text = some j) (hspecsLength : specs.length < 2 ^ 63)
    (htextLength : text.length < 2 ^ 63) :
    ∃ items : KeyedList Value,
      (coerceArguments inputs data specs).outcome = .ok (Value.list items).jsonText ∧
      IsCoercedByNames members j items ∧
      ∀ (inputs' : Inputs) (data' text' : String) (j' : Json),
        ((Source.ofArgument data').read inputs').outcome = .ok text' →
        Json.parse? text' = some j' → text'.length < 2 ^ 63 →
        (∀ name ∈ memberNames members, j'.member? name = j.member? name) →
          (coerceArguments inputs' data' specs).outcome = .ok (Value.list items).jsonText := by
  obtain ⟨target, htarget⟩ := hgood.exists_targets
  have hset := SpecSet.ofArgument_object hspecs htarget
  have hrun : ∀ {inputs : Inputs} {data text : String} {j : Json},
      ((Source.ofArgument data).read inputs).outcome = .ok text → Json.parse? text = some j →
      (coerceArguments inputs data specs).outcome =
        .ok (Value.list ((Value.ofJson j).convertFields
          (namedTargets (memberNames members) target))).jsonText := by
    intro inputs data text j hread hj
    have hv : Value.ofJsonText? text = some (.ofJson j) := by
      rw [Value.ofJsonText?, hj, Option.map_some]
    exact outcome_coerceArguments_eq_ok_iff.2
      ⟨_, text, _, _, hset, hread, hv, (TargetSet.fields _).outcome_coerceBy _, rfl⟩
  have hmembers := Json.length_members_le hspecs
  have hfield := field_of_parse? hj htextLength
  refine ⟨_, hrun hread hj, isCoercedByNames_convertFields htarget hfield (by omega), ?_⟩
  intro inputs' data' text' j' hread' hj' htextLength' hsame
  have hconvert : (Value.ofJson j').convertFields (namedTargets (memberNames members) target) =
      (Value.ofJson j).convertFields (namedTargets (memberNames members) target) := by
    refine Value.convertFields_congr fun field hmem => ?_
    obtain ⟨name, hname, rfl⟩ := List.mem_map.1 hmem
    rw [field_of_parse? hj' htextLength', hfield, Json.valueUnder, Json.valueUnder, hsame name hname]
  rw [hrun hread' hj', hconvert]

theorem coerceArguments_fields_repeated_names :
    ∃ items : KeyedList Value,
      (coerceArguments ⟨.ok .empty, fun _ => .error .notUtf8⟩
          "\x7b\"7\":\"12\",\"x\":1,\"07\":[0],\"7\":-3\x7d"
          "\x7b\"07\":\"int\",\"7\":\"uint64\",\"07\":\"array.bool\"\x7d").outcome =
        .ok (Value.list items).jsonText ∧
      IsCoercedByNames [("07", .str "int"), ("7", .str "uint64"), ("07", .str "array.bool")]
        (.object [("7", .str "12"), ("x", .int 1), ("07", .array [.int 0]), ("7", .int (-3))]) items ∧
      (coerceArguments ⟨.ok .empty, fun _ => .error .notUtf8⟩ "\x7b\"07\":[0],\"7\":-3\x7d"
          "\x7b\"07\":\"int\",\"7\":\"uint64\",\"07\":\"array.bool\"\x7d").outcome =
        .ok (Value.list items).jsonText := by
  have hspecsTokens : Json.tokens?
      "\x7b\"07\":\"int\",\"7\":\"uint64\",\"07\":\"array.bool\"\x7d".toList =
        some [.openObject, .str "07", .colon, .str "int", .comma, .str "7", .colon, .str "uint64",
          .comma, .str "07", .colon, .str "array.bool", .closeObject] := by decide +kernel
  have htextTokens : Json.tokens? "\x7b\"7\":\"12\",\"x\":1,\"07\":[0],\"7\":-3\x7d".toList =
      some [.openObject, .str "7", .colon, .str "12", .comma, .str "x", .colon, .int 1, .comma,
        .str "07", .colon, .openArray, .int 0, .closeArray, .comma, .str "7", .colon, .int (-3),
        .closeObject] := by decide +kernel
  have hotherTokens : Json.tokens? "\x7b\"07\":[0],\"7\":-3\x7d".toList =
      some [.openObject, .str "07", .colon, .openArray, .int 0, .closeArray, .comma, .str "7",
        .colon, .int (-3), .closeObject] := by decide +kernel
  have hspecs : Json.parse? "\x7b\"07\":\"int\",\"7\":\"uint64\",\"07\":\"array.bool\"\x7d" =
      some (.object [("07", .str "int"), ("7", .str "uint64"), ("07", .str "array.bool")]) := by
    rw [Json.parse?, hspecsTokens]
    rfl
  have htext : Json.parse? "\x7b\"7\":\"12\",\"x\":1,\"07\":[0],\"7\":-3\x7d" =
      some (.object [("7", .str "12"), ("x", .int 1), ("07", .array [.int 0]), ("7", .int (-3))]) := by
    rw [Json.parse?, htextTokens]
    rfl
  have hother : Json.parse? "\x7b\"07\":[0],\"7\":-3\x7d" =
      some (.object [("07", .array [.int 0]), ("7", .int (-3))]) := by
    rw [Json.parse?, hotherTokens]
    rfl
  have hgood : AreGoodSpecs
      [("07", .str "int"), ("7", .str "uint64"), ("07", .str "array.bool")] := by
    refine List.forall_mem_cons.2 ⟨⟨"array.bool", rfl, rfl⟩, ?_⟩
    exact List.forall_mem_singleton.2 ⟨"uint64", rfl, rfl⟩
  have hread : ((Source.ofArgument "\x7b\"7\":\"12\",\"x\":1,\"07\":[0],\"7\":-3\x7d").read
      ⟨.ok .empty, fun _ => .error .notUtf8⟩).outcome =
        .ok "\x7b\"7\":\"12\",\"x\":1,\"07\":[0],\"7\":-3\x7d" := rfl
  obtain ⟨items, hrun, hitems, hsame⟩ :=
    coerceArguments_fields hspecs hgood hread htext (by decide) (by decide)
  refine ⟨items, hrun, hitems, hsame _ _ _ _ rfl hother (by decide) ?_⟩
  exact List.forall_mem_cons.2 ⟨rfl, List.forall_mem_singleton.2 rfl⟩

end LooseTypes
