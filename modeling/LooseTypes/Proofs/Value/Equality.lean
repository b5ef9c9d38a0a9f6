import LooseTypes.Proofs.Binary64.Value
import LooseTypes.Proofs.Value.Lists
import LooseTypes.Session

/-!
# Equality as a relation

`Value.Equals` says for each kind of values which of them are equal, and `Value.equal` decides it
(`Value.equal_iff_equals`). Equality is symmetric and transitive, and what keeps a value from being
equal to itself is a NaN in it, at any depth (`Value.equal_self_iff`): that two texts, lists or
objects are the same one is not asked before their content, so a copy is no more equal than any other
value.
-/

namespace LooseTypes

namespace Value

/-! ## Equal values -/

/-- The values are equal: numbers by their exact values, texts by content, lists by their keys and
values in order, objects by their identities. -/
inductive Equals : Value → Value → Prop where
  | null : Equals .null .null
  | bool (b : Bool) : Equals (.bool b) (.bool b)
  | int (n : Int64) : Equals (.int n) (.int n)
  | infinite (negative : Bool) : Equals (.float (.infinite negative)) (.float (.infinite negative))
  | finite {x y : Binary64} {q : ℚ} : x.value? = some q → y.value? = some q →
    Equals (.float x) (.float y)
  | str (s : String) : Equals (.str s) (.str s)
  | list {l l' : KeyedList Value} : l.keys = l'.keys →
    (∀ (position : Nat) (v v' : Value), l.values[position]? = some v →
      l'.values[position]? = some v' → Equals v v') →
    Equals (.list l) (.list l')
  | object {o o' : Object} : o.identity = o'.identity → Equals (.object o) (.object o')

/-! ## Kinds of values -/

theorem equal_iff_eq {a b : Value} (h : a.kind ∉ [.float, .array, .object]) :
    a.equal b = true ↔ a = b := by
  cases a <;> cases b <;> simp_all [equal, kind]

theorem equal_list_iff {l l' : KeyedList Value} : (list l).equal (list l') = true ↔
    l.keys = l'.keys ∧ ∀ (position : Nat) (v v' : Value), l.values[position]? = some v →
      l'.values[position]? = some v' → v.equal v' = true := by
  rw [equal_list, entriesEqual_iff_forall₂, KeyedList.keys, KeyedList.keys, KeyedList.values,
    KeyedList.values]
  generalize l.toList = as, l'.toList = bs
  induction as generalizing bs with
  | nil => cases bs <;> simp
  | cons a as ih =>
    cases bs with
    | nil => simp
    | cons b bs =>
      rw [List.forall₂_cons, ih]
      constructor
      · rintro ⟨⟨hkey, hvalue⟩, hkeys, hvalues⟩
        refine ⟨by rw [List.map_cons, List.map_cons, hkey, hkeys], fun position v v' hv hv' => ?_⟩
        cases position with
        | zero =>
          cases hv
          cases hv'
          exact hvalue
        | succ position => exact hvalues position v v' hv hv'
      · rintro ⟨hkeys, hvalues⟩
        obtain ⟨hkey, hkeys⟩ := List.cons.inj hkeys
        exact ⟨⟨hkey, hvalues 0 _ _ rfl rfl⟩, hkeys, fun position => hvalues (position + 1)⟩

theorem equal_object_iff {o o' : Object} :
    (object o).equal (.object o') = true ↔ o.identity = o'.identity := by
  rw [equal, beq_iff_eq]

/-- Equal values are the same, unless they are numbers, lists or objects. -/
theorem equal_cases {a b : Value} (h : a.equal b = true) :
    a = b ∨ (∃ x y, a = .float x ∧ b = .float y ∧ x.numEq y = true) ∨
      (∃ l l', a = .list l ∧ b = .list l') ∨
      ∃ o o', a = .object o ∧ b = .object o' ∧ o.identity = o'.identity := by
  by_cases hkind : a.kind ∈ [.float, .array, .object]
  · cases a <;> cases b <;> simp_all [equal, kind]
  · exact .inl ((equal_iff_eq hkind).1 h)

/-- Lists under the same keys have values at the same positions. -/
theorem exists_value_of_keys_eq {l l' : KeyedList Value} (h : l.keys = l'.keys) {position : Nat}
    {v : Value} (hv : l.values[position]? = some v) : ∃ v', l'.values[position]? = some v' := by
  have hlt := (List.getElem?_eq_some_iff.1 hv).1
  rw [← l.length_keys, h, l'.length_keys] at hlt
  exact ⟨_, List.getElem?_eq_getElem hlt⟩

/-! ## A partial equivalence -/

theorem equal_symm {a b : Value} (h : a.equal b = true) : b.equal a = true := by
  induction a generalizing b with
  | null | bool | int | str =>
    obtain rfl := (equal_iff_eq (by simp [kind])).1 h
    exact h
  | float x =>
    cases b with
    | float y => rwa [equal, Binary64.numEq_comm, ← equal]
    | _ => cases h
  | list l ih =>
    cases b with
    | list l' =>
      obtain ⟨hkeys, hvalues⟩ := equal_list_iff.1 h
      refine equal_list_iff.2 ⟨hkeys.symm, fun position v v' hv hv' => ?_⟩
      exact ih v' (List.mem_of_getElem? hv') (hvalues position v' v hv' hv)
    | _ => cases h
  | object o =>
    cases b with
    | object o' => exact equal_object_iff.2 (equal_object_iff.1 h).symm
    | _ => cases h

theorem equal_trans {a b c : Value} (hab : a.equal b = true) (hbc : b.equal c = true) :
    a.equal c = true := by
  induction a generalizing b c with
  | null | bool | int | str =>
    obtain rfl := (equal_iff_eq (by simp [kind])).1 hab
    exact hbc
  | float x =>
    cases b with
    | float y =>
      cases c with
      | float z => exact Binary64.numEq_trans hab hbc
      | _ => cases hbc
    | _ => cases hab
  | list l ih =>
    cases b with
    | list l' =>
      cases c with
      | list l'' =>
        obtain ⟨hkeys, hvalues⟩ := equal_list_iff.1 hab
        obtain ⟨hkeys', hvalues'⟩ := equal_list_iff.1 hbc
        refine equal_list_iff.2 ⟨hkeys.trans hkeys', fun position v w hv hw => ?_⟩
        obtain ⟨u, hu⟩ := exists_value_of_keys_eq hkeys hv
        exact ih v (List.mem_of_getElem? hv) (hvalues position v u hv hu)
          (hvalues' position u w hu hw)
      | _ => cases hbc
    | _ => cases hab
  | object o =>
    cases b with
    | object o' =>
      cases c with
      | object o'' =>
        exact equal_object_iff.2 ((equal_object_iff.1 hab).trans (equal_object_iff.1 hbc))
      | _ => cases hbc
    | _ => cases hab

/-- Nothing but a NaN is in the way of equality with itself. -/
theorem equal_self_iff {a : Value} : a.equal a = true ↔ ¬a.Contains (.float .nan) := by
  induction a with
  | null | bool | int | str =>
    refine iff_of_true ((equal_iff_eq (by simp [kind])).2 rfl) ?_
    rintro ⟨⟩
  | object o =>
    refine iff_of_true (equal_object_iff.2 rfl) ?_
    rintro ⟨⟩
  | float x =>
    rw [equal, Binary64.numEq_self_iff, not_iff_not]
    constructor
    · rintro rfl
      exact .self _
    · rintro ⟨⟩
      rfl
  | list l ih =>
    rw [equal_list_iff]
    constructor
    · rintro ⟨-, hvalues⟩ (_ | ⟨hv, hnan⟩)
      obtain ⟨position, hposition⟩ := List.mem_iff_getElem?.1 hv
      exact (ih _ hv).1 (hvalues position _ _ hposition hposition) hnan
    · intro h
      refine ⟨rfl, fun position v v' hv hv' => ?_⟩
      obtain rfl : v = v' := Option.some.inj (hv.symm.trans hv')
      have hmem := List.mem_of_getElem? hv
      exact (ih v hmem).2 fun hnan => h (.item hmem hnan)

/-! ## What equality compares -/

theorem equal_iff_equals {a b : Value} : a.equal b = true ↔ a.Equals b := by
  induction a generalizing b with
  | null | bool | int | str =>
    rw [equal_iff_eq (by simp [kind])]
    constructor
    · rintro rfl
      constructor
    · rintro ⟨⟩
      rfl
  | float x =>
    cases b with
    | float y =>
      rw [equal, Binary64.numEq_iff]
      constructor
      · rintro (⟨negative, rfl, rfl⟩ | ⟨q, hx, hy⟩)
        · exact .infinite negative
        · exact .finite hx hy
      · intro h
        cases h with
        | infinite negative => exact .inl ⟨negative, rfl, rfl⟩
        | finite hx hy => exact .inr ⟨_, hx, hy⟩
    | _ => constructor <;> (intro h; cases h)
  | list l ih =>
    cases b with
    | list l' =>
      rw [equal_list_iff]
      constructor
      · rintro ⟨hkeys, hvalues⟩
        refine .list hkeys fun position v v' hv hv' => ?_
        exact (ih v (List.mem_of_getElem? hv)).1 (hvalues position v v' hv hv')
      · rintro (_ | _ | _ | _ | _ | _ | ⟨hkeys, hvalues⟩)
        refine ⟨hkeys, fun position v v' hv hv' => ?_⟩
        exact (ih v (List.mem_of_getElem? hv)).2 (hvalues position v v' hv hv')
    | _ => constructor <;> (intro h; cases h)
  | object o =>
    cases b with
    | object o' =>
      rw [equal_object_iff]
      constructor
      · exact .object
      · rintro ⟨⟩
        assumption
    | _ => constructor <;> (intro h; cases h)

end Value

/-! ## Copies -/

namespace Session

theorem register_copy_target (s : Session) (source target : String) :
    (s.copy source target).register target = s.register source := by
  rw [register, copy, List.lookup_cons_self, Option.getD_some]

theorem register_copy_source (s : Session) (source target : String) :
    (s.copy source target).register source = s.register source := by
  rw [register, copy, List.lookup_cons]
  split <;> rfl

/-- A copy is the same text, list or object; of other values no two are the same one. -/
theorem same_copy_iff (s : Session) (source target : String) :
    (s.copy source target).same source target = true ↔
      (s.value source).kind ∈ [.string, .array, .object] := by
  rw [same, value, value, register_copy_source, register_copy_target, ← value]
  cases s.value source <;> simp [Value.kind]

end Session

namespace Value

/-- Equality is symmetric and transitive, and a value is equal to itself just if no NaN is in it. The
same goes for a copy, though a copy is the same text, list or object. Equality is what the kinds of the
values ask for: it is that of the exact values of numbers, of the contents of texts, of the keys and
values of lists in their order, and of the identities of objects. -/
theorem equal_partial_equivalence :
    (∀ a b : Value, a.equal b = true → b.equal a = true) ∧
    (∀ a b c : Value, a.equal b = true → b.equal c = true → a.equal c = true) ∧
    (∀ a : Value, a.equal a = true ↔ ¬a.Contains (.float .nan)) ∧
    (∀ (s : Session) (name copy : String),
      ((s.copy name copy).same name copy = true ↔
        (s.value name).kind ∈ [.string, .array, .object]) ∧
      ((s.copy name copy).equal name copy = true ↔ ¬(s.value name).Contains (.float .nan))) ∧
    ∀ a b : Value, a.equal b = true ↔ a.Equals b := by
  refine ⟨fun a b => equal_symm, fun a b c => equal_trans, fun a => equal_self_iff,
    fun s name copy => ⟨s.same_copy_iff name copy, ?_⟩, fun a b => equal_iff_equals⟩
  rw [Session.equal, Session.value, Session.value, s.register_copy_source, s.register_copy_target,
    ← Session.value, equal_self_iff]

/-- The zeros differ in sign, the lists hold one object, and a list with a NaN is copied. -/
theorem equal_partial_equivalence_nested :
    let o : Object := ⟨4, "Point", some "p"⟩
    let l : Value := .list (.ofEntries [(.name "o", .object o)])
    let a : Value := .list (.ofEntries [(.index (-1), .float (.zero false)), (.name "b", l)])
    let b : Value := .list (.ofEntries [(.index (-1), .float (.zero true)), (.name "b", l)])
    let s : Session := Session.empty.set "x" (.list (.ofEntries [(.name "n", .float .nan)]))
    (a.equal b = true ∧ b.equal a = true ∧ a.equal a = true) ∧
    ((s.copy "x" "y").same "x" "y" = true ∧ (s.copy "x" "y").equal "x" "y" = false) ∧
    (l.equal l = true ↔ l.Equals l) := by
  intro o l a b s
  obtain ⟨hsymm, htrans, -, hcopy, hequals⟩ := equal_partial_equivalence
  have hl : l.equal l = true := by
    rw [equal_list, KeyedList.toList_ofEntries_of_nodup _ (by decide)]
    decide
  have hab : a.equal b = true := by
    rw [equal_list, KeyedList.toList_ofEntries_of_nodup _ (by decide),
      KeyedList.toList_ofEntries_of_nodup _ (by decide)]
    simp only [entriesEqual, hl]
    decide
  have hnan : (s.value "x").Contains (.float .nan) := by
    refine .item ?_ (.self _)
    rw [KeyedList.values, KeyedList.toList_ofEntries_of_nodup _ (by decide)]
    exact List.mem_singleton_self _
  refine ⟨⟨hab, hsymm a b hab, htrans a b a hab (hsymm a b hab)⟩, ⟨rfl, ?_⟩,
    hequals l l⟩
  rw [Bool.eq_false_iff]
  exact fun h => (hcopy s "x" "y").2.1 h hnan

end Value

end LooseTypes
