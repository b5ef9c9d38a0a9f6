import LooseTypes.Proofs.Coercion.Outcome
import LooseTypes.Proofs.Uint64

/-!
# The values of a type

`Target.Inhabits` says which values have the type that a target declares, without regard to how they
came about. A converted value has the type (`Target.inhabits_convert`), and the values of the type
are just those that the conversion keeps (`Target.convert_eq_self_iff`), so converting twice is
converting once.
-/

namespace LooseTypes

inductive ScalarTarget.Inhabits : ScalarTarget → Value → Prop where
  | int (n : Int64) : Inhabits .int (.int n)
  | float (x : Binary64) : Inhabits .float (.float x)
  | bool (b : Bool) : Inhabits .bool (.bool b)
  | uint64 {s : String} : CanonicalUint64 s.toList → Inhabits .uint64 (.str s)
  /-- With a trim in the spec, a text has nothing to trim at either end. -/
  | string {trims : Nat} {s : String} :
    (0 < trims → IsTrimmedText s.toList) → Inhabits (.string trims) (.str s)

/-- The value has the declared type. -/
inductive Target.Inhabits : Target → Value → Prop where
  | scalar {t : ScalarTarget} {v : Value} : t.Inhabits v → Inhabits (.scalar t) v
  | array (items : KeyedList Value) : Inhabits .array (.list items)
  | arrayOf {e : ScalarTarget} {items : KeyedList Value} :
    (∀ v ∈ items.values, e.Inhabits v) → Inhabits (.arrayOf e) (.list items)

namespace ScalarTarget

theorem inhabits_convert (t : ScalarTarget) (v : Value) : t.Inhabits (t.convert v) := by
  cases t with
  | int => exact .int _
  | float => exact .float _
  | bool => exact .bool _
  | uint64 =>
    obtain ⟨n, hn, h⟩ := v.exists_toUint64_eq_digits
    refine .uint64 ?_
    rw [h, String.toList_ofList]
    exact canonicalUint64_digits hn
  | string trims =>
    cases trims with
    | zero => exact .string fun h => absurd h (Nat.lt_irrefl 0)
    | succ n =>
      refine .string fun _ => ?_
      rw [String.toList_ofList]
      exact isTrimmedText_trimmed _

theorem Inhabits.convert_eq {t : ScalarTarget} {v : Value} (h : t.Inhabits v) :
    t.convert v = v := by
  cases h with
  | int | float | bool => rfl
  | @uint64 s h =>
    obtain ⟨n, hn, hs⟩ := canonicalUint64_iff.1 h
    have hofList : s = String.ofList (digits n) := by rw [← hs, String.ofList_toList]
    rw [hofList, convert, Value.toUint64_str_digits hn]
  | @string trims s h =>
    cases trims with
    | zero => rfl
    | succ n =>
      rw [convert, Value.toText, trimmed_eq_self_iff.2 (h n.succ_pos), String.ofList_toList]

end ScalarTarget

namespace Target

theorem inhabits_convert (t : Target) (v : Value) : t.Inhabits (t.convert v) := by
  cases t with
  | scalar t => exact .scalar (t.inhabits_convert v)
  | array => exact .array _
  | arrayOf e =>
    refine .arrayOf fun x hx => ?_
    rw [KeyedList.values_mapValues] at hx
    obtain ⟨item, -, rfl⟩ := List.mem_map.1 hx
    exact e.inhabits_convert item

theorem Inhabits.convert_eq {t : Target} {v : Value} (h : t.Inhabits v) : t.convert v = v := by
  cases h with
  | scalar h => exact h.convert_eq
  | array => rfl
  | arrayOf h =>
    rw [convert, Value.toList, KeyedList.mapValues_eq_self_iff.2 fun x hx => (h x hx).convert_eq]

/-- The conversion keeps the values of the type and no others. -/
theorem convert_eq_self_iff {t : Target} {v : Value} : t.convert v = v ↔ t.Inhabits v :=
  ⟨fun h => h ▸ t.inhabits_convert v, Inhabits.convert_eq⟩

theorem convert_convert (t : Target) (v : Value) : t.convert (t.convert v) = t.convert v :=
  (t.inhabits_convert v).convert_eq

end Target

end LooseTypes
