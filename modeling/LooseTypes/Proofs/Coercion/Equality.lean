import LooseTypes.Proofs.Coercion.Floats
import LooseTypes.Proofs.Coercion.Soundness
import LooseTypes.Proofs.Value.Equality

/-!
# Coercion of equal values

Equal values need not have the same text, for the zeros differ in their signs, and lists may differ in
more than their entries. All conversions but that to a text give equal results for equal values
(`Target.equal_convert`), so a coercion cannot tell such values apart (`coerce_respects_equality`).
Equality does not look into objects, and a coercion may; but what has one identity is one object
(`Value.AgreeOnObjects`).
-/

namespace LooseTypes

open Binary64

/-! ## Equal numbers -/

namespace Binary64

variable {x y : Binary64}

theorem truncate_congr (h : x.numEq y = true) : x.truncate = y.truncate := by
  rcases numEq_iff.1 h with ⟨negative, rfl, rfl⟩ | ⟨q, hx, hy⟩
  · rfl
  · rw [truncate_eq_towardZero hx, truncate_eq_towardZero hy]

theorem isNonzero_congr (h : x.numEq y = true) : x.isNonzero = y.isNonzero := by
  have hzero : x.numEq (zero false) = true ↔ y.numEq (zero false) = true :=
    ⟨numEq_trans (by rwa [numEq_comm]), numEq_trans h⟩
  rw [isNonzero, isNonzero, Bool.eq_iff_iff.2 hzero]

theorem ofDecimal_ne_nan (negative : Bool) (d : Decimal) : ofDecimal negative d ≠ nan := by
  unfold ofDecimal ofRatio ofRank
  split_ifs <;> nofun

theorem ofInt_ne_nan (n : Int) : ofInt n ≠ nan := by
  unfold ofInt ofRatio ofRank
  split_ifs <;> nofun

end Binary64

namespace Value

/-- Objects with one identity, one in each value, are one object. -/
def AgreeOnObjects (a b : Value) : Prop :=
  ∀ o o', a.Contains (.object o) → b.Contains (.object o') → o.identity = o'.identity → o = o'

variable {a b : Value}

/-! ## Equal values as scalars -/

theorem toInt64_congr (h : a.equal b = true) : a.toInt64 = b.toInt64 := by
  rcases equal_cases h with rfl | ⟨x, y, rfl, rfl, hxy⟩ | ⟨l, l', rfl, rfl⟩ | ⟨o, o', rfl, rfl, -⟩
  · rfl
  · rw [toInt64, toInt64, truncate_congr hxy]
  · rfl
  · rfl

theorem toBool_congr (h : a.equal b = true) : a.toBool = b.toBool := by
  rcases equal_cases h with rfl | ⟨x, y, rfl, rfl, hxy⟩ | ⟨l, l', rfl, rfl⟩ | ⟨o, o', rfl, rfl, -⟩
  · rfl
  · exact isNonzero_congr hxy
  · have hempty : ∀ items : KeyedList Value, items.isEmpty = items.keys.isEmpty := fun items => by
      simp [KeyedList.isEmpty, KeyedList.keys, KeyedList.toList]
    rw [toBool, toBool, hempty, hempty, (equal_list_iff.1 h).1]
  · rfl

/-- The sign of a zero is gone once its text is read as an unsigned integer. -/
theorem toUint64_congr (h : a.equal b = true) (hagree : a.AgreeOnObjects b) :
    a.toUint64 = b.toUint64 := by
  rcases equal_cases h with rfl | ⟨x, y, rfl, rfl, hxy⟩ | ⟨l, l', rfl, rfl⟩ | ⟨o, o', rfl, rfl, ho⟩
  · rfl
  · rcases numEq_iff.1 hxy with ⟨negative, rfl, rfl⟩ | ⟨q, hx, hy⟩
    · rfl
    · have hrounded := isRounded_fixedText hx
      rw [toUint64_float_eq hx hrounded, toUint64_float_eq hy hrounded]
  · rfl
  · rw [hagree o o' (.self _) (.self _) ho]

theorem toBinary64_ne_nan (h : a ≠ .float .nan) : a.toBinary64 ≠ nan := by
  cases a with
  | null | list | object =>
    intro h
    cases h
  | bool b => exact ofInt_ne_nan _
  | int n => exact ofInt_ne_nan _
  | float x => exact fun hx => h (congrArg _ hx)
  | str s =>
    rw [toBinary64]
    cases Numeral.scan s.toList with
    | none =>
      intro h
      cases h
    | some n => exact ofDecimal_ne_nan _ _

theorem numEq_toBinary64 (h : a.equal b = true) : a.toBinary64.numEq b.toBinary64 = true := by
  rcases equal_cases h with rfl | ⟨x, y, rfl, rfl, hxy⟩ | ⟨l, l', rfl, rfl⟩ | ⟨o, o', rfl, rfl, -⟩
  · refine numEq_self_iff.2 (toBinary64_ne_nan ?_)
    rintro rfl
    cases h
  · exact hxy
  · rfl
  · rfl

/-! ## Equal values as lists -/

theorem toList_ofList_singleton (v : Value) : (KeyedList.ofList [v]).toList = [(.index 0, v)] :=
  KeyedList.toList_ofEntries_of_nodup [(.index 0, v)] (by simp)

theorem mem_ofList_singleton {v w : Value} (h : v ∈ (KeyedList.ofList [w]).values) : v = w := by
  rw [KeyedList.values, toList_ofList_singleton] at h
  exact List.mem_singleton.1 h

theorem equal_ofList_singleton (h : a.equal b = true) :
    (list (.ofList [a])).equal (list (.ofList [b])) = true := by
  rw [equal_list, toList_ofList_singleton, toList_ofList_singleton]
  simp [entriesEqual, h]

theorem equal_toList (h : a.equal b = true) : (list a.toList).equal (list b.toList) = true := by
  rcases equal_cases h with rfl | ⟨x, y, rfl, rfl, hxy⟩ | ⟨l, l', rfl, rfl⟩ | ⟨o, o', rfl, rfl, -⟩
  · cases a with
    | null | object => rfl
    | bool | int | float | str => exact equal_ofList_singleton h
    | list l => exact h
  · exact equal_ofList_singleton h
  · exact h
  · rfl

/-- What is in a value as a list is in the value. -/
theorem contains_of_mem_toList {v part : Value} (hv : v ∈ a.toList.values)
    (h : v.Contains part) : a.Contains part := by
  cases a with
  | null | object => cases hv
  | bool | int | float | str =>
    obtain rfl := mem_ofList_singleton hv
    exact h
  | list l => exact .item hv h

theorem AgreeOnObjects.element {v v' : Value} (h : a.AgreeOnObjects b)
    (hv : v ∈ a.toList.values) (hv' : v' ∈ b.toList.values) : v.AgreeOnObjects v' :=
  fun o o' ho ho' => h o o' (contains_of_mem_toList hv ho) (contains_of_mem_toList hv' ho')

theorem equal_mapValues {f : Value → Value} {l l' : KeyedList Value}
    (hf : ∀ v ∈ l.values, ∀ v' ∈ l'.values, v.equal v' = true → (f v).equal (f v') = true)
    (h : (list l).equal (list l') = true) :
    (list (l.mapValues f)).equal (list (l'.mapValues f)) = true := by
  obtain ⟨hkeys, hvalues⟩ := equal_list_iff.1 h
  refine equal_list_iff.2 ⟨?_, fun position w w' hw hw' => ?_⟩
  · rw [KeyedList.keys_mapValues, KeyedList.keys_mapValues, hkeys]
  · rw [KeyedList.values_mapValues, List.getElem?_map, Option.map_eq_some_iff] at hw hw'
    obtain ⟨v, hv, rfl⟩ := hw
    obtain ⟨v', hv', rfl⟩ := hw'
    exact hf v (List.mem_of_getElem? hv) v' (List.mem_of_getElem? hv')
      (hvalues position v v' hv hv')

end Value

/-! ## Conversions -/

variable {a b : Value}

theorem ScalarTarget.equal_convert {t : ScalarTarget} (ht : t.type ≠ .string)
    (h : a.equal b = true) (hagree : a.AgreeOnObjects b) :
    (t.convert a).equal (t.convert b) = true := by
  cases t with
  | int => simp [convert, Value.equal, Value.toInt64_congr h]
  | float => exact Value.numEq_toBinary64 h
  | bool => simp [convert, Value.equal, Value.toBool_congr h]
  | uint64 => simp [convert, Value.equal, Value.toUint64_congr h hagree]
  | string => exact absurd rfl ht

/-- The target has no text in it. -/
def Target.IsTextless : Target → Prop
  | .scalar t => t.type ≠ .string
  | .array => True
  | .arrayOf e => e.type ≠ .string

theorem Target.equal_convert {t : Target} (ht : t.IsTextless) (h : a.equal b = true)
    (hagree : a.AgreeOnObjects b) : (t.convert a).equal (t.convert b) = true := by
  cases t with
  | scalar t => exact t.equal_convert ht h hagree
  | array => exact Value.equal_toList h
  | arrayOf e =>
    refine Value.equal_mapValues (fun v hv v' hv' hequal => ?_) (Value.equal_toList h)
    exact e.equal_convert ht hequal (hagree.element hv hv')

theorem Target.isTextless_of_spec {t : Target} (htag : t.toSpec.tag ≠ .scalar .string)
    (helement : ∀ e, t.toSpec.element? = .ok (some e) → e.type ≠ .string) : t.IsTextless := by
  cases t with
  | scalar t => exact fun h => htag (congrArg Tag.scalar h)
  | array => trivial
  | arrayOf e => exact helement e.toElement (element?_arrayOf e)

/-- Equal values are coerced to equal values by every good spec whose type is not `string`, nor the type
of its elements: the coercion sees neither the sign of a zero, at any depth, nor how a list was built.
What has one identity in the two values is one object. -/
theorem coerce_respects_equality {text : String} {s : Spec} (hequal : a.equal b = true)
    (hagree : a.AgreeOnObjects b)
    (hparse : Spec.parse text = .ok s) (hcheck : s.check = .ok ()) (htag : s.tag ≠ .scalar .string)
    (helement : ∀ e, s.element? = .ok (some e) → e.type ≠ .string) :
    ∃ x y, (a.coerce text).outcome = .ok x ∧ (b.coerce text).outcome = .ok y ∧
      x.equal y = true := by
  obtain ⟨t, rfl, rfl⟩ := exists_toSpec_eq_of_check hparse hcheck
  exact ⟨_, _, a.outcome_coerce_text t, b.outcome_coerce_text t,
    t.equal_convert (t.isTextless_of_spec htag helement) hequal hagree⟩

/-- A value of one list was replaced, the zeros have different signs, and both hold one object. -/
theorem coerce_respects_equality_replaced_value :
    let o : Object := ⟨4, "Point", some "p"⟩
    let inner : Value := .list (.ofEntries [(.name "z", .object o)])
    let a : Value := .list (.ofEntries [(.index 0, .float (.zero true)), (.name "b", inner)])
    let b : Value := .list ((KeyedList.ofEntries [(.index 0, .null), (.name "b", inner)]).insert
      (.index 0) (.float (.zero false)))
    a.equal b = true ∧ a.AgreeOnObjects b ∧
    Spec.parse "array.uint64" = .ok ⟨.array, ["uint64"]⟩ ∧
    (⟨.array, ["uint64"]⟩ : Spec).check = .ok () ∧
    (⟨.array, ["uint64"]⟩ : Spec).element? = .ok (some ⟨.uint64, []⟩) ∧
    ∃ x y, (a.coerce "array.uint64").outcome = .ok x ∧ (b.coerce "array.uint64").outcome = .ok y ∧
      x.equal y = true := by
  intro o inner a b
  have hparse : Spec.parse "array.uint64" = .ok ⟨.array, ["uint64"]⟩ :=
    (Target.arrayOf .uint64).parse_text
  have hinner : inner.equal inner = true := by
    rw [Value.equal_list, KeyedList.toList_ofEntries_of_nodup _ (by decide)]
    decide
  have hequal : a.equal b = true := by
    rw [Value.equal_list, (KeyedList.wellFormed_ofEntries _).toList_insert,
      KeyedList.toList_ofEntries_of_nodup _ (by decide),
      KeyedList.toList_ofEntries_of_nodup _ (by decide)]
    simp only [insertEntry, if_pos, entriesEqual, hinner]
    decide
  have hobject : ∀ p, inner.Contains (.object p) → p = o := by
    intro p hp
    unfold inner at hp
    obtain _ | ⟨hv, hp⟩ := hp
    rw [KeyedList.values, KeyedList.toList_ofEntries_of_nodup _ (by decide)] at hv
    cases List.mem_singleton.1 hv
    cases hp
    rfl
  have ha : ∀ p, a.Contains (.object p) → p = o := by
    intro p hp
    unfold a at hp
    obtain _ | ⟨hv, hp⟩ := hp
    rw [KeyedList.values, KeyedList.toList_ofEntries_of_nodup _ (by decide)] at hv
    rcases List.mem_pair.1 hv with rfl | rfl
    · cases hp
    · exact hobject p hp
  have hb : ∀ p, b.Contains (.object p) → p = o := by
    intro p hp
    unfold b at hp
    obtain _ | ⟨hv, hp⟩ := hp
    rw [KeyedList.values, (KeyedList.wellFormed_ofEntries _).toList_insert,
      KeyedList.toList_ofEntries_of_nodup _ (by decide)] at hv
    rcases List.mem_pair.1 hv with rfl | rfl
    · cases hp
    · exact hobject p hp
  have hagree : a.AgreeOnObjects b := fun p q hp hq _ => (ha p hp).trans (hb q hq).symm
  refine ⟨hequal, hagree, hparse, rfl, rfl, ?_⟩
  refine coerce_respects_equality hequal hagree hparse rfl (by decide) fun e he => ?_
  cases he
  decide

-- A text shows the sign of a zero.
example : (Value.float (.zero true)).equal (.float (.zero false)) = true ∧
    (Value.float (.zero true)).toText ≠ (Value.float (.zero false)).toText := by decide +kernel

end LooseTypes
