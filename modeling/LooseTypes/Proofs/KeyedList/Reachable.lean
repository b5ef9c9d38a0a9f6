import LooseTypes.Proofs.KeyedList.MapValues
import LooseTypes.Proofs.KeyedList.Sequential
import LooseTypes.Proofs.KeyedList.Visits

/-!
# Lists that the operations build

A list is `Reachable` if it comes from the empty one by any run of the operations. Each operation
keeps a list well-formed, so every reachable list is (`Reachable.wellFormed`), and its entries, its
hash index and its next index tell the same (`WellFormed.coherent`): what the hash index finds is
the position of the key, and the next index follows the largest index that is not negative.
-/

namespace LooseTypes

namespace KeyedList

variable {α β : Type} {l : KeyedList α}

/-! ## Runs of operations -/

theorem mapValuesM_pure {m : Type → Type} [Monad m] [LawfulMonad m] (g : α → β)
    (l : KeyedList α) : l.mapValuesM (fun a => (pure (g a) : m β)) = pure (l.mapValues g) := by
  simp [KeyedList.mapValuesM, mapValues]

/-- What the operations build from the empty list; a copy of a list is the list itself. -/
inductive Reachable : KeyedList α → Prop where
  | empty : Reachable .empty
  | push {l : KeyedList α} (value : α) : Reachable l → Reachable (l.push value)
  | insert {l : KeyedList α} (key : Key) (value : α) :
    Reachable l → Reachable (l.getThenInsert? key value).2
  /-- A run over the values that succeeds, from any state to any other. -/
  | mapValuesM {l l' : KeyedList α} {ε σ : Type} {f : α → ExceptT ε (StateM σ) α} {s t : σ} :
    Reachable l → (l.mapValuesM f).run.run s = (.ok l', t) → Reachable l'
  | ofList (values : List α) : Reachable (.ofList values)
  | ofEntries (entries : List (Key × α)) : Reachable (.ofEntries entries)

theorem Reachable.mapValues (h : l.Reachable) (g : α → α) : (l.mapValues g).Reachable := by
  refine .mapValuesM (ε := Unit) (σ := Unit) (f := fun a => pure (g a)) (s := ()) (t := ()) h ?_
  rw [mapValuesM_pure]
  rfl

theorem Reachable.wellFormed (h : l.Reachable) : l.WellFormed := by
  induction h with
  | empty => exact wellFormed_empty
  | push value _ ih => exact ih.insert _ value
  | insert key value _ ih => exact ih.insert key value
  | mapValuesM _ hrun ih => exact ih.mapValuesM hrun
  | ofList values => exact wellFormed_ofList values
  | ofEntries entries => exact wellFormed_ofEntries entries

/-! ## The three parts of a list -/

/-- The entries, the hash index and the next index of a list tell the same. -/
structure Coherent (l : KeyedList α) : Prop where
  nodup : l.keys.Nodup
  /-- There are no slots but those of the entries. -/
  size_index : l.index.size = l.size
  getElem?_index : ∀ (key : Key) (position : Nat),
    l.index[key]? = some position ↔ l.keys[position]? = some key
  next_of_negative : (∀ i : Int64, .index i ∈ l.keys → i.toInt < 0) → l.next = 0
  next_of_largest : ∀ i : Int64, .index i ∈ l.keys → 0 ≤ i.toInt →
    (∀ j : Int64, .index j ∈ l.keys → j ≤ i) → l.next.toInt = min (i.toInt + 1) (2 ^ 63 - 1)

theorem size_indexOf {keys : List Key} (h : keys.Nodup) : (indexOf keys).size = keys.length := by
  induction keys using List.reverseRecOn with
  | nil => rfl
  | append_singleton keys last ih =>
    rw [← List.concat_eq_append, List.nodup_concat] at h
    obtain ⟨hlast, hkeys⟩ := h
    have hnew : last ∉ indexOf keys := by
      rw [Std.HashMap.mem_iff_isSome_getElem?, indexOf_eq_none hkeys hlast]
      simp
    rw [indexOf_concat, Std.HashMap.size_insert, if_neg hnew, ih hkeys, List.length_append]
    rfl

/-- The next index is beyond every index, or as far as it can go, and it follows one of them unless
it is zero. -/
theorem nextOf_follows (keys : List Key) :
    0 ≤ (nextOf keys).toInt ∧
      (∀ i : Int64, .index i ∈ keys → min (i.toInt + 1) (2 ^ 63 - 1) ≤ (nextOf keys).toInt) ∧
      (nextOf keys = 0 ∨ ∃ i : Int64, .index i ∈ keys ∧ 0 ≤ i.toInt ∧
        (nextOf keys).toInt = min (i.toInt + 1) (2 ^ 63 - 1)) := by
  induction keys using List.reverseRecOn with
  | nil => exact ⟨Int.le_refl 0, fun i h => absurd h List.not_mem_nil, .inl rfl⟩
  | append_singleton keys last ih =>
    obtain ⟨hnonneg, hbeyond, hfollows⟩ := ih
    have hold : ∀ i : Int64, .index i ∈ keys → .index i ∈ keys ++ [last] :=
      fun i => List.mem_append_left _
    rw [nextOf_concat]
    cases last with
    | name text =>
      refine ⟨hnonneg, fun i hi => hbeyond i (by simpa using hi), ?_⟩
      exact hfollows.imp_right fun ⟨i, hi, h⟩ => ⟨i, hold i hi, h⟩
    | index last =>
      rw [Key.nextAfter]
      split
      next hle =>
        rw [Int64.le_iff_toInt_le] at hle
        have hnext := toInt_nextInt64 last
        have hlast := last.toInt_lt
        refine ⟨by omega, fun i hi => ?_, .inr ⟨last, by simp, by omega, hnext⟩⟩
        rcases List.mem_append.1 hi with hi | hi
        · have := hbeyond i hi
          omega
        · cases List.mem_singleton.1 hi
          omega
      next hlt =>
        rw [Int64.le_iff_toInt_le] at hlt
        refine ⟨hnonneg, fun i hi => ?_, hfollows.imp_right fun ⟨i, hi, h⟩ => ⟨i, hold i hi, h⟩⟩
        rcases List.mem_append.1 hi with hi | hi
        · exact hbeyond i hi
        · cases List.mem_singleton.1 hi
          omega

theorem WellFormed.coherent (h : l.WellFormed) : l.Coherent := by
  have hsize : l.size = l.keys.length := by simp [size, keys, toList]
  obtain ⟨-, hbeyond, hfollows⟩ := nextOf_follows l.keys
  rw [← h.next_eq] at hbeyond hfollows
  refine ⟨h.nodup, ?_, fun key position => h.getElem?_index, fun hnegative => ?_,
    fun i hi hi0 hlargest => ?_⟩
  · rw [h.index_eq, size_indexOf h.nodup, hsize]
  · rcases hfollows with hzero | ⟨i, hi, hi0, -⟩
    · exact hzero
    · have := hnegative i hi
      omega
  · have hle := hbeyond i hi
    have hlt := i.toInt_lt
    rcases hfollows with hzero | ⟨j, hj, hj0, hnext⟩
    · rw [hzero, Int64.toInt_zero] at hle
      omega
    · have hji := Int64.le_iff_toInt_le.1 (hlargest j hj)
      omega

/-! ## The value that an insertion replaces -/

theorem fst_getThenInsert? (l : KeyedList α) (key : Key) (value : α) :
    (l.getThenInsert? key value).1 = l.get? key := by
  unfold getThenInsert? get?
  cases l.index[key]? with
  | none => rfl
  | some position =>
    show l.entries[position]?.map (·.2) = l.entries[position]?.bind fun entry => some entry.2
    cases l.entries[position]? <;> rfl

namespace WellFormed

variable {key : Key} {old value : α}

/-- Under a present key only the value changes, and the old one comes back. -/
theorem getThenInsert?_of_getElem? (h : l.WellFormed) {position : Nat}
    (hp : l.toList[position]? = some (key, old)) :
    (l.getThenInsert? key value).1 = some old ∧
      (l.getThenInsert? key value).2.toList = l.toList.set position (key, value) := by
  have hkey : l.keys[position]? = some key := by rw [keys, List.getElem?_map, hp, Option.map_some]
  refine ⟨?_, ?_⟩
  · rw [fst_getThenInsert?]
    exact h.get?_of_mem (List.mem_of_getElem? hp)
  · show (l.insert key value).toList = _
    rw [h.toList_insert, insertEntry_eq_set h.nodup hkey]

/-- A new key comes at the end, and all else stays as it is. -/
theorem getThenInsert?_of_not_mem (h : l.WellFormed) (hk : key ∉ l.keys) :
    (l.getThenInsert? key value).1 = none ∧
      (l.getThenInsert? key value).2.toList = l.toList ++ [(key, value)] := by
  refine ⟨?_, ?_⟩
  · rw [fst_getThenInsert?, h.get?_eq_lookup, lookup_eq_none_of_not_mem hk]
  · show (l.insert key value).toList = _
    rw [h.toList_insert, insertEntry_of_not_mem hk]

end WellFormed

end KeyedList

end LooseTypes
