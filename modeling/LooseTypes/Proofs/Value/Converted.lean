import LooseTypes.Proofs.Coercion.TargetSet
import LooseTypes.Proofs.Value.Interchange

/-!
# Converted values in JSON

A converted value is portable but for infinities, since a text with a long numeral converts to one:
with null in place of these it is portable (`TargetSet.portable_convert`). Read back, it still has the
declared types if its numbers are finite (`TargetSet.Inhabits.readBack`), and if it is converted again
and comes out as it was, then it was read as it was (`TargetSet.readBack_convert_eq`).
-/

namespace LooseTypes

/-! ## Portable results -/

namespace Value

variable {n : Nat} {v : Value} {items : KeyedList Value}

theorem portable_convert_scalar (n : Nat) (t : ScalarTarget) (v : Value) :
    Portable n ((t.convert v).readBack id) := by
  cases t with
  | int => exact .int n _
  | float =>
    rw [ScalarTarget.convert]
    cases v.toBinary64 with
    | nan => exact .null n
    | infinite negative => exact .null n
    | finite negative rank => exact .float n negative rank
  | bool => exact .bool n _
  | uint64 => exact .str n _
  | string trims =>
    cases trims with
    | zero => exact .str n _
    | succ k => exact .str n _

/-- As a list, a value is at least one deep. -/
theorem portable_toList (h : Portable (n + 1) v) : Portable (n + 1) (.list v.toList) := by
  have hsingle : ∀ w : Value, Portable n w → Portable (n + 1) (.list (.ofList [w])) :=
    fun w hw => portable_ofList (List.forall_mem_singleton.2 hw)
  cases h with
  | null => exact portable_ofEntries fun entry hentry => absurd hentry List.not_mem_nil
  | bool => exact hsingle _ (.bool n _)
  | int => exact hsingle _ (.int n _)
  | float => exact hsingle _ (.float n _ _)
  | str => exact hsingle _ (.str n _)
  | list hwf hkeys hvalues => exact .list hwf hkeys hvalues

theorem portable_mapValues {f : Value → Value} (h : Portable (n + 1) (.list items))
    (hf : ∀ v, Portable n (f v)) : Portable (n + 1) (.list (items.mapValues f)) := by
  cases h with
  | list hwf hkeys =>
    refine .list (hwf.mapValues f) (by rwa [KeyedList.keys_mapValues]) ?_
    rw [KeyedList.values_mapValues]
    exact List.forall_mem_map.2 fun v _ => hf v

theorem portable_convert (t : Target) (h : Portable (n + 1) v) :
    Portable (n + 1) ((t.convert v).readBack id) := by
  cases t with
  | scalar t => exact portable_convert_scalar (n + 1) t v
  | array =>
    rw [Target.convert, (portable_toList h).readBack_id_eq]
    exact portable_toList h
  | arrayOf e =>
    rw [Target.convert, readBack_list, KeyedList.mapValues_mapValues]
    exact portable_mapValues (portable_toList h) (portable_convert_scalar n e)

theorem portable_field (h : Portable (n + 1) v) (key : Key) : Portable n (v.field key) := by
  cases h with
  | null | bool | int | float | str => exact .null n
  | @list n items hwf _ hvalues =>
    rw [field, list?, Option.bind_some]
    cases hget : items.get? key with
    | none => exact .null n
    | some x => exact hvalues x (hwf.mem_values_of_get? hget)

theorem portable_convertFields {targets : List (Key × Target)}
    (hkeys : ∀ key ∈ targets.map (·.1), key.IsNormal) (h : Portable (n + 2) v) :
    Portable (n + 2) ((list (v.convertFields targets)).readBack id) := by
  rw [readBack_list]
  refine .list ((v.wellFormed_convertFields targets).mapValues _) ?_ ?_
  · rw [KeyedList.keys_mapValues, keys_convertFields]
    exact fun key hkey => hkeys key (List.mem_eraseDups.1 hkey)
  · rw [KeyedList.values_mapValues, List.forall_mem_map]
    intro x hx
    obtain ⟨entry, hentry, rfl⟩ := List.mem_map.1 hx
    obtain ⟨field, -, rfl⟩ := List.mem_map.1 (KeyedList.mem_of_mem_ofEntries hentry)
    exact portable_convert field.2 (portable_field h field.1)

end Value

/-- The keys of the fields. -/
def SpecSet.keys : SpecSet → List Key
  | .single _ => []
  | .fields specs => specs.map (·.1)

theorem TargetSet.portable_convert {n : Nat} {v : Value} (targets : TargetSet)
    (hkeys : ∀ key ∈ targets.specs.keys, key.IsNormal) (h : v.Portable (n + 2)) :
    ((targets.convert v).readBack id).Portable (n + 2) := by
  cases targets with
  | single t => exact Value.portable_convert t h
  | fields targets =>
    refine Value.portable_convertFields ?_ h
    rwa [specs, SpecSet.keys, map_fst_targetSpecs] at hkeys

/-! ## The types of what is read back -/

section ReadBack

variable {read : Fin Binary64.rankLimit → Fin Binary64.rankLimit} {n : Nat} {v : Value}

theorem ScalarTarget.Inhabits.readBack {t : ScalarTarget} (h : t.Inhabits v)
    (hfinite : ∀ x, v.Contains (.float x) → x.isFinite = true) : t.Inhabits (v.readBack read) := by
  cases h with
  | int | bool => constructor
  | float x =>
    cases x with
    | finite negative rank => exact .float _
    | nan | infinite => cases hfinite _ (.self _)
  | uint64 hs => exact .uint64 hs
  | string hs => exact .string hs

theorem Target.Inhabits.readBack {t : Target} (h : t.Inhabits v)
    (hfinite : ∀ x, v.Contains (.float x) → x.isFinite = true) : t.Inhabits (v.readBack read) := by
  cases h with
  | scalar h => exact .scalar (h.readBack hfinite)
  | array items =>
    rw [Value.readBack_list]
    exact .array _
  | arrayOf h =>
    rw [Value.readBack_list]
    refine .arrayOf ?_
    rw [KeyedList.values_mapValues]
    exact List.forall_mem_map.2 fun x hx =>
      (h x hx).readBack fun y hy => hfinite y (.item hx hy)

theorem TargetSet.Inhabits.readBack {targets : TargetSet} (h : targets.Inhabits v)
    (hfinite : ∀ x, v.Contains (.float x) → x.isFinite = true) :
    targets.Inhabits (v.readBack read) := by
  cases h with
  | single h => exact .single (h.readBack hfinite)
  | fields hkeys hvalues =>
    rw [Value.readBack_list]
    refine .fields (by rwa [KeyedList.keys_mapValues]) ?_
    rw [KeyedList.toList_mapValues]
    refine List.forall_mem_map.2 fun entry hentry => ?_
    obtain ⟨t, ht, hinhabits⟩ := hvalues entry hentry
    exact ⟨t, ht, hinhabits.readBack fun x hx => hfinite x (.item (List.mem_map_of_mem hentry) hx)⟩

/-! ## Converting what is read back -/

/-- A number that became null does not become null again. -/
theorem ScalarTarget.Inhabits.readBack_eq {t : ScalarTarget} (h : t.Inhabits v)
    (hagain : (t.convert (v.readBack read)).readBack id = v.readBack id) : v.readBack read = v := by
  cases h with
  | int | bool | uint64 | string => rfl
  | float x =>
    cases x with
    | finite => exact hagain
    | nan | infinite => cases hagain

namespace Value

theorem readBack_convert_eq (t : Target) (h : Portable (n + 1) v)
    (hagain : (t.convert ((t.convert v).readBack read)).readBack id = (t.convert v).readBack id) :
    (t.convert v).readBack read = t.convert v := by
  cases t with
  | scalar t => exact (t.inhabits_convert v).readBack_eq hagain
  | array =>
    have hlist : (list v.toList).readBack id = list v.toList := (portable_toList h).readBack_id_eq
    have hread : Target.array.convert ((list v.toList).readBack read) =
        (list v.toList).readBack read := by
      rw [readBack_list]
      rfl
    have hresult : Target.array.convert v = list v.toList := rfl
    rw [hresult, hread, readBack_readBack, hlist] at hagain
    rw [hresult]
    exact hagain
  | arrayOf e =>
    have hresult : (Target.arrayOf e).convert v = list (v.toList.mapValues e.convert) := rfl
    have hlist : (((v.toList.mapValues e.convert).mapValues (Value.readBack read)).mapValues
        e.convert).mapValues (Value.readBack id) =
          (v.toList.mapValues e.convert).mapValues (Value.readBack id) := by
      rw [hresult, readBack_list, readBack_list] at hagain
      exact list.inj ((readBack_list id _).symm.trans hagain)
    rw [KeyedList.mapValues_mapValues, KeyedList.mapValues_mapValues, KeyedList.mapValues_inj] at hlist
    rw [hresult, readBack_list, list.injEq, KeyedList.mapValues_eq_self_iff]
    intro x hx
    have hx' := hlist x hx
    rw [KeyedList.values_mapValues] at hx
    obtain ⟨w, -, rfl⟩ := List.mem_map.1 hx
    exact (e.inhabits_convert w).readBack_eq hx'

theorem readBack_convertFields_eq (targets : List (Key × Target)) (h : Portable (n + 2) v)
    (hagain : (list (((list (v.convertFields targets)).readBack read).convertFields
      targets)).readBack id = (list (v.convertFields targets)).readBack id) :
    (list (v.convertFields targets)).readBack read = list (v.convertFields targets) := by
  rw [readBack_list, readBack_list, readBack_list, list.injEq] at hagain
  rw [readBack_list, list.injEq, KeyedList.mapValues_eq_self_iff]
  intro x hx
  obtain ⟨⟨key, x⟩, hentry, rfl⟩ := List.mem_map.1 hx
  have hget : (v.convertFields targets).get? key = some x :=
    (v.wellFormed_convertFields targets).get?_of_mem hentry
  obtain ⟨t, ht, hx⟩ := Option.map_eq_some_iff.1 ((get?_convertFields v targets key).symm.trans hget)
  have hfield : (list ((v.convertFields targets).mapValues (Value.readBack read))).field key =
      x.readBack read := by
    rw [field, list?, Option.bind_some, KeyedList.get?_mapValues, hget]
    rfl
  have hkey := congrArg (·.get? key) hagain
  simp only [KeyedList.get?_mapValues, get?_convertFields, ht, Option.map_some, hfield,
    Option.some.injEq] at hkey
  rw [hx] at hkey
  subst hx
  exact readBack_convert_eq t (portable_field h key) hkey

end Value

theorem TargetSet.readBack_convert_eq (targets : TargetSet) (h : v.Portable (n + 2))
    (hagain : (targets.convert ((targets.convert v).readBack read)).readBack id =
      (targets.convert v).readBack id) : (targets.convert v).readBack read = targets.convert v := by
  cases targets with
  | single t => exact Value.readBack_convert_eq t h hagain
  | fields targets => exact Value.readBack_convertFields_eq targets h hagain

end ReadBack

end LooseTypes
