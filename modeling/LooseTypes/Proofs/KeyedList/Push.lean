import LooseTypes.Proofs.KeyedList.Reachable
import LooseTypes.Value.Basic

/-!
# Pushing a value

The next index is beyond all indices as long as the largest 64-bit integer is not one of them
(`WellFormed.lt_next`), and then a pushed value comes at the end, under a new key
(`WellFormed.appended_push`). Nothing is beyond the largest integer: once it is an index, it stays
the next one, and a pushed value takes the place of the one there (`WellFormed.toList_push_of_full`).
-/

namespace LooseTypes.KeyedList

variable {α : Type} {l : KeyedList α}

def IsFull (l : KeyedList α) : Prop := .index Int64.maxValue ∈ l.keys

/-- The list `l'` is `l` with a value at the end, under an index beyond all others. -/
structure Appended (l : KeyedList α) (value : α) (i : Int64) (l' : KeyedList α) : Prop where
  /-- The entries of `l` are where they were. -/
  toList_eq : l'.toList = l.toList ++ [(.index i, value)]
  size_eq : l'.size = l.size + 1
  nonneg : 0 ≤ i.toInt
  beyond : ∀ j : Int64, .index j ∈ l.keys → j < i

theorem size_eq_length (l : KeyedList α) : l.size = l.toList.length := by simp [size, toList]

namespace WellFormed

/-! ## The next index -/

theorem next_nonneg (h : l.WellFormed) : 0 ≤ l.next.toInt := by
  rw [h.next_eq]
  exact (nextOf_follows l.keys).1

theorem lt_next (h : l.WellFormed) (hfull : ¬l.IsFull) {i : Int64} (hi : .index i ∈ l.keys) :
    i < l.next := by
  have hbeyond := (nextOf_follows l.keys).2.1 i hi
  rw [← h.next_eq] at hbeyond
  have hne : i.toInt ≠ 2 ^ 63 - 1 := by
    rw [← Int64.toInt_maxValue, Ne, Int64.toInt_inj]
    rintro rfl
    exact hfull hi
  have hlt := i.toInt_lt
  rw [Int64.lt_iff_toInt_lt]
  omega

/-- The largest index is followed by itself. -/
theorem next_of_full (h : l.WellFormed) (hfull : l.IsFull) : l.next = Int64.maxValue := by
  have hbeyond := (nextOf_follows l.keys).2.1 Int64.maxValue hfull
  rw [← h.next_eq, Int64.toInt_maxValue] at hbeyond
  have hlt := l.next.toInt_lt
  rw [← Int64.toInt_inj, Int64.toInt_maxValue]
  omega

/-! ## The pushed value -/

theorem appended_push (h : l.WellFormed) (hfull : ¬l.IsFull) (value : α) :
    l.Appended value l.next (l.push value) := by
  have hnew : .index l.next ∉ l.keys := fun hmem => Int64.lt_irrefl (h.lt_next hfull hmem)
  have htoList : (l.push value).toList = l.toList ++ [(.index l.next, value)] := by
    rw [push, h.toList_insert, insertEntry_of_not_mem hnew]
  refine ⟨htoList, ?_, h.next_nonneg, fun j => h.lt_next hfull⟩
  rw [size_eq_length, htoList, List.length_append, size_eq_length]
  rfl

theorem toList_push_of_full (h : l.WellFormed) {position : Nat}
    (hp : l.keys[position]? = some (.index Int64.maxValue)) (value : α) :
    (l.push value).toList = l.toList.set position (.index Int64.maxValue, value) := by
  rw [push, h.next_of_full (List.mem_of_getElem? hp), h.toList_insert, insertEntry_eq_set h.nodup hp]

theorem not_appended_of_full (h : l.WellFormed) (hfull : l.IsFull) (value : α) (i : Int64) :
    ¬l.Appended value i (l.push value) := by
  intro happended
  obtain ⟨position, hp⟩ := List.getElem?_of_mem hfull
  have hsize := happended.size_eq
  rw [size_eq_length, h.toList_push_of_full hp, List.length_set, size_eq_length] at hsize
  omega

end WellFormed

/-- Just if the largest index is free, a pushed value comes at the end under an index beyond all
others, and the entries before it stay. If it is taken, the value under it is lost. -/
theorem push_appends_or_replaces (l : KeyedList Value) (value : Value) (hl : l.Reachable) :
    ((∃ i, l.Appended value i (l.push value)) ↔ ¬l.IsFull) ∧
    (l.IsFull → ∃ (position : Nat) (old : Value),
      l.toList[position]? = some (.index Int64.maxValue, old) ∧
        (l.push value).toList = l.toList.set position (.index Int64.maxValue, value)) := by
  have hwf := hl.wellFormed
  refine ⟨⟨?_, fun hfull => ⟨l.next, hwf.appended_push hfull value⟩⟩, fun hfull => ?_⟩
  · rintro ⟨i, happended⟩ hfull
    exact hwf.not_appended_of_full hfull value i happended
  · obtain ⟨position, hp⟩ := List.getElem?_of_mem hfull
    have hentry := hp
    rw [keys, List.getElem?_map] at hentry
    obtain ⟨⟨key, old⟩, hold, rfl⟩ := Option.map_eq_some_iff.1 hentry
    exact ⟨position, old, hold, hwf.toList_push_of_full hp value⟩

theorem push_appends_or_replaces_mixed_keys :
    let l : KeyedList Value :=
      ofEntries [(.index (-3), .null), (.name "07", .bool true), (.index 5, .str "five")]
    let full : KeyedList Value :=
      ofEntries [(.name "x", .null), (.index Int64.maxValue, .str "old")]
    (l.Reachable ∧ ¬l.IsFull ∧ ∃ i, l.Appended (.int 1) i (l.push (.int 1))) ∧
    full.Reachable ∧ full.IsFull ∧
      ∃ (position : Nat) (old : Value),
        full.toList[position]? = some (.index Int64.maxValue, old) ∧
          (full.push (.int 1)).toList =
            full.toList.set position (.index Int64.maxValue, .int 1) := by
  intro l full
  have hl : ¬l.IsFull := by
    rw [IsFull, keys_ofEntries]
    decide
  have hfull : full.IsFull := by
    rw [IsFull, keys_ofEntries]
    decide
  exact ⟨⟨.ofEntries _, hl, (push_appends_or_replaces l _ (.ofEntries _)).1.2 hl⟩,
    .ofEntries _, hfull, (push_appends_or_replaces full _ (.ofEntries _)).2 hfull⟩

/-- Not every push adds an entry: here the new value takes the place of the old one. -/
theorem push_onto_largest_index :
    ¬ ∀ (l : KeyedList Value) (value : Value), l.Reachable →
      ∃ i, l.Appended value i (l.push value) := by
  intro h
  let l : KeyedList Value := ofEntries [(.index Int64.maxValue, .str "old")]
  have hfull : l.IsFull := by
    rw [IsFull, keys_ofEntries]
    decide
  obtain ⟨i, happended⟩ := h l (.str "new") (.ofEntries _)
  exact (wellFormed_ofEntries _).not_appended_of_full hfull (.str "new") i happended

end LooseTypes.KeyedList
