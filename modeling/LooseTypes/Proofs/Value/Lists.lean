import LooseTypes.Proofs.KeyedList.Reachable
import LooseTypes.Value.Basic
import Mathlib.Data.List.Forall2

/-!
# Values and their lists

What holds of a list whenever it holds of the values in it, and of all that is no list, holds of every
value (`Value.inductionOn`).

All that can be seen of a list that the operations build are its entries in order
(`KeyedList.reachable_is_its_entries`): lookups, what an insertion replaces and where it puts the
value, the length, whether the list is sequential, and which lists it equals. The hash index and the
next index follow from the entries, and equality does not look at them.
-/

namespace LooseTypes

/-! ## What is in a value -/

namespace Value

theorem sizeOf_lt_of_mem_values {items : KeyedList Value} {v : Value} (h : v ∈ items.values) :
    sizeOf v < sizeOf (list items) := by
  obtain ⟨⟨entries⟩, index, next⟩ := items
  obtain ⟨⟨key, v⟩, hentry, rfl⟩ := List.mem_map.1 h
  have hlt : sizeOf (key, v) < sizeOf entries := List.sizeOf_lt_of_mem hentry
  rw [Prod.mk.sizeOf_spec] at hlt
  show sizeOf v < _
  rw [list.sizeOf_spec, KeyedList.mk.sizeOf_spec, Array.mk.sizeOf_spec]
  omega

@[elab_as_elim, induction_eliminator]
theorem inductionOn {motive : Value → Prop} (null : motive .null) (bool : ∀ b, motive (.bool b))
    (int : ∀ n, motive (.int n)) (float : ∀ x, motive (.float x)) (str : ∀ s, motive (.str s))
    (list : ∀ items, (∀ v ∈ items.values, motive v) → motive (.list items))
    (object : ∀ o, motive (.object o)) (v : Value) : motive v :=
  match v with
  | .null => null
  | .bool b => bool b
  | .int n => int n
  | .float x => float x
  | .str s => str s
  | .object o => object o
  | .list items => list items fun v _ => inductionOn null bool int float str list object v
termination_by v
decreasing_by exact sizeOf_lt_of_mem_values (by assumption)

/-- A value with all that is in it, at any depth. -/
inductive Contains : Value → Value → Prop where
  | self (v : Value) : Contains v v
  | item {items : KeyedList Value} {v part : Value} :
    v ∈ items.values → Contains v part → Contains (.list items) part

end Value

/-! ## Equality -/

theorem entriesEqual_iff_forall₂ {as bs : List (Key × Value)} :
    entriesEqual as bs = true ↔ List.Forall₂ (fun a b => a.1 = b.1 ∧ a.2.equal b.2 = true) as bs := by
  induction as generalizing bs with
  | nil => cases bs <;> simp [entriesEqual]
  | cons a as ih =>
    obtain ⟨key, v⟩ := a
    cases bs with
    | nil => simp [entriesEqual]
    | cons b bs =>
      obtain ⟨key', w⟩ := b
      simp [entriesEqual, ih]

theorem Value.equal_list (l l' : KeyedList Value) :
    (list l).equal (list l') = entriesEqual l.toList l'.toList := by
  obtain ⟨⟨as⟩, _, _⟩ := l
  obtain ⟨⟨bs⟩, _, _⟩ := l'
  rw [equal]
  rfl

namespace KeyedList

/-! ## What can be seen of a list -/

/-- The list is no more than the association list of its entries, which is what an iteration goes
through: their keys are in the order in which they first came, and values are replaced in place. -/
structure ActsAsEntries (l : KeyedList Value) : Prop where
  size_eq : l.size = l.toList.length
  get?_eq : ∀ key, l.get? key = l.toList.lookup key
  /-- An insertion under a present key changes this value and gives the old one. -/
  replaces : ∀ (position : Nat) (key : Key) (old value : Value),
    l.toList[position]? = some (key, old) →
      (l.getThenInsert? key value).1 = some old ∧
        (l.getThenInsert? key value).2.toList = l.toList.set position (key, value)
  /-- An insertion under a new key appends. -/
  appends : ∀ (key : Key) (value : Value), key ∉ l.keys →
    (l.getThenInsert? key value).1 = none ∧
      (l.getThenInsert? key value).2.toList = l.toList ++ [(key, value)]
  isSequential_iff : l.isSequential = true ↔ ∀ (position : Nat) (key : Key),
    l.keys[position]? = some key → ∃ i : Int64, key = .index i ∧ i.toInt = position
  equal_iff : ∀ l' : KeyedList Value, (Value.list l).equal (.list l') = true ↔
    List.Forall₂ (fun a b => a.1 = b.1 ∧ a.2.equal b.2 = true) l.toList l'.toList

theorem WellFormed.actsAsEntries {l : KeyedList Value} (h : l.WellFormed) : l.ActsAsEntries where
  size_eq := by simp [size, toList]
  get?_eq := h.get?_eq_lookup
  replaces _ _ _ _ := h.getThenInsert?_of_getElem?
  appends _ _ := h.getThenInsert?_of_not_mem
  isSequential_iff := isSequential_iff_getElem?
  equal_iff l' := by rw [Value.equal_list, entriesEqual_iff_forall₂]

/-- After any run of the operations the three parts of a list tell the same, and the list is no more
than its entries. -/
theorem reachable_is_its_entries {l : KeyedList Value} (h : l.Reachable) :
    l.Coherent ∧ l.ActsAsEntries :=
  ⟨h.wellFormed.coherent, h.wellFormed.actsAsEntries⟩

theorem reachable_is_its_entries_mixed_keys :
    let l : KeyedList Value :=
      ((ofEntries [(.name "07", Value.int 1), (.index Int64.maxValue, .null)]).mapValues
        fun v => Value.bool v.isNull).push (.str "x")
    l.Reachable ∧ l.Coherent ∧ l.ActsAsEntries :=
  have h := ((Reachable.ofEntries _).mapValues _).push _
  ⟨h, reachable_is_its_entries h⟩

end KeyedList

end LooseTypes
