import LooseTypes.KeyedList.Basic

/-!
# Changing the values of a list

The values of a list changed one by one, under the same keys. All that depends on the keys stays as
it is, well-formedness included, and a lookup finds the changed value (`get?_mapValues`).
-/

namespace LooseTypes.KeyedList

variable {α β γ : Type} {l : KeyedList α}

/-- The values changed one by one, under the same keys. -/
def mapValues (f : α → β) (l : KeyedList α) : KeyedList β :=
  ⟨l.entries.map fun entry => (entry.1, f entry.2), l.index, l.next⟩

theorem toList_mapValues (f : α → β) (l : KeyedList α) :
    (l.mapValues f).toList = l.toList.map fun entry => (entry.1, f entry.2) := by
  simp [toList, mapValues]

theorem values_mapValues (f : α → β) (l : KeyedList α) :
    (l.mapValues f).values = l.values.map f := by
  rw [values, toList_mapValues, values, List.map_map, List.map_map]
  rfl

theorem keys_mapValues (f : α → β) (l : KeyedList α) : (l.mapValues f).keys = l.keys := by
  rw [keys, toList_mapValues, keys, List.map_map]
  rfl

theorem get?_mapValues (f : α → β) (l : KeyedList α) (key : Key) :
    (l.mapValues f).get? key = (l.get? key).map f := by
  simp only [get?, mapValues]
  cases l.index[key]? with
  | none => rfl
  | some position =>
    simp only [Option.bind_eq_bind, Option.bind_some, Array.getElem?_map]
    cases l.entries[position]? <;> rfl

theorem isSequential_mapValues (f : α → β) (l : KeyedList α) :
    (l.mapValues f).isSequential = l.isSequential := by
  rw [isSequential, isSequential, keys_mapValues]

theorem WellFormed.mapValues (h : l.WellFormed) (f : α → β) : (l.mapValues f).WellFormed := by
  refine ⟨?_, ?_, ?_⟩ <;> rw [keys_mapValues]
  · exact h.nodup
  · exact h.index_eq
  · exact h.next_eq

theorem mapValues_mapValues (g : β → γ) (f : α → β) (l : KeyedList α) :
    (l.mapValues f).mapValues g = l.mapValues fun a => g (f a) := by
  simp [mapValues, Function.comp_def]

theorem mapValues_id (l : KeyedList α) : l.mapValues id = l := by
  simp [mapValues]

theorem mapValues_inj {f g : α → β} :
    l.mapValues f = l.mapValues g ↔ ∀ a ∈ l.values, f a = g a := by
  constructor
  · intro h
    have hvalues : l.values.map f = l.values.map g := by
      rw [← values_mapValues, h, values_mapValues]
    exact List.map_inj_left.1 hvalues
  · intro h
    have hentries : l.entries.map (fun entry => (entry.1, f entry.2)) =
        l.entries.map fun entry => (entry.1, g entry.2) := by
      rw [← Array.toList_inj, Array.toList_map, Array.toList_map]
      exact List.map_congr_left fun entry hentry => by rw [h entry.2 (List.mem_map_of_mem hentry)]
    rw [mapValues, hentries, mapValues]

theorem mapValues_eq_self_iff {f : α → α} : l.mapValues f = l ↔ ∀ a ∈ l.values, f a = a := by
  have h := @mapValues_inj _ _ l f id
  rwa [mapValues_id] at h

theorem mapValues_empty (f : α → β) : (empty : KeyedList α).mapValues f = empty := by
  simp [mapValues, empty]

theorem mapValues_insert (f : α → β) (l : KeyedList α) (key : Key) (value : α) :
    (l.insert key value).mapValues f = (l.mapValues f).insert key (f value) := by
  unfold insert getThenInsert?
  cases h : l.index[key]? with
  | none => simp [mapValues, h]
  | some position => simp [mapValues, h, Array.map_setIfInBounds]

theorem mapValues_ofEntries (f : α → β) (entries : List (Key × α)) :
    (ofEntries entries).mapValues f = ofEntries (entries.map fun entry => (entry.1, f entry.2)) := by
  rw [ofEntries, ofEntries, List.foldl_map, ← mapValues_empty f]
  exact (List.foldl_hom (mapValues f) fun l entry =>
    (mapValues_insert f l entry.1 entry.2).symm).symm

end LooseTypes.KeyedList
