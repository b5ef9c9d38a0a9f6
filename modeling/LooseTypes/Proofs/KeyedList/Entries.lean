import LooseTypes.KeyedList.Basic
import Mathlib.Data.List.Induction
import Mathlib.Data.List.Nodup

/-!
# Keyed lists as plain lists of entries

A well-formed list is its entries: the hash index and the next key follow from them
(`WellFormed.ext`). On the entries, `get?` is a search for the key and `insert` replaces the value
in place or appends (`WellFormed.get?_eq_lookup`, `WellFormed.toList_insert`). A list built from
entries has their keys in the order in which they first came, each with the value that came last
(`keys_ofEntries`, `get?_ofEntries`).
-/

namespace LooseTypes

/-! ## Plain entries -/

theorem eraseDups_concat {α : Type} [DecidableEq α] (l : List α) (a : α) :
    (l ++ [a]).eraseDups = if a ∈ l then l.eraseDups else l.eraseDups ++ [a] := by
  rw [List.eraseDups_append]
  split
  next h => simp [List.removeAll, h]
  next h => simp [List.removeAll, h, List.eraseDups_cons]

theorem nodup_eraseDups {α : Type} [DecidableEq α] (l : List α) : l.eraseDups.Nodup := by
  induction l using List.reverseRecOn with
  | nil => exact List.nodup_nil
  | append_singleton l last ih =>
    rw [eraseDups_concat]
    split
    next => exact ih
    next h =>
      rw [← List.concat_eq_append, List.nodup_concat, List.mem_eraseDups]
      exact ⟨h, ih⟩

theorem eraseDups_map_of_injective {α β : Type} [DecidableEq α] [DecidableEq β] {f : α → β}
    (hf : Function.Injective f) (l : List α) : (l.map f).eraseDups = l.eraseDups.map f := by
  induction l using List.reverseRecOn with
  | nil => rfl
  | append_singleton l last ih =>
    simp only [List.map_append, List.map_singleton, eraseDups_concat, ih,
      List.mem_map_of_injective hf]
    split
    · rfl
    · rw [List.map_append, List.map_singleton]

section Entries

variable {α : Type} {entries : List (Key × α)} {key : Key} {value : α}

/-- Puts a value under a key: in place of the entry with this key, or at the end. -/
def insertEntry : List (Key × α) → Key → α → List (Key × α)
  | [], key, value => [(key, value)]
  | entry :: rest, key, value =>
    if entry.1 = key then (key, value) :: rest else entry :: insertEntry rest key value

theorem insertEntry_of_not_mem (h : key ∉ entries.map (·.1)) :
    insertEntry entries key value = entries ++ [(key, value)] := by
  induction entries with
  | nil => rfl
  | cons entry rest ih =>
    simp only [List.map_cons, List.mem_cons, not_or] at h
    rw [insertEntry, if_neg (Ne.symm h.1), ih h.2, List.cons_append]

/-- Only the first entry with the key changes. -/
theorem insertEntry_eq_set (hnodup : (entries.map (·.1)).Nodup) {position : Nat}
    (h : (entries.map (·.1))[position]? = some key) :
    insertEntry entries key value = entries.set position (key, value) := by
  induction entries generalizing position with
  | nil => cases h
  | cons entry rest ih =>
    rw [List.map_cons, List.nodup_cons] at hnodup
    rw [insertEntry]
    cases position with
    | zero =>
      rw [List.map_cons, List.getElem?_cons_zero] at h
      rw [if_pos (Option.some.inj h), List.set_cons_zero]
    | succ n =>
      rw [List.map_cons, List.getElem?_cons_succ] at h
      have hne : entry.1 ≠ key := fun he => hnodup.1 (he ▸ List.mem_of_getElem? h)
      rw [if_neg hne, ih hnodup.2 h, List.set_cons_succ]

theorem map_fst_insertEntry (entries : List (Key × α)) (key : Key) (value : α) :
    (insertEntry entries key value).map (·.1) =
      if key ∈ entries.map (·.1) then entries.map (·.1) else entries.map (·.1) ++ [key] := by
  induction entries with
  | nil => rfl
  | cons entry rest ih =>
    rw [insertEntry]
    by_cases h : entry.1 = key
    · simp [h]
    · simp only [if_neg h, List.map_cons, ih, List.mem_cons, Ne.symm h, false_or]
      split <;> rfl

theorem lookup_cons_of_ne {other : Key} (h : other ≠ key) :
    ((key, value) :: entries).lookup other = entries.lookup other := by
  rw [List.lookup_cons, beq_eq_false_iff_ne.2 h]

theorem lookup_eq_none_of_not_mem (h : key ∉ entries.map (·.1)) : entries.lookup key = none := by
  rw [List.lookup_eq_none_iff]
  intro entry hentry
  have hne : key ≠ entry.1 := by
    rintro rfl
    exact h (List.mem_map_of_mem hentry)
  simpa using hne

theorem lookup_eq_of_mem (hnodup : (entries.map (·.1)).Nodup) {entry : Key × α}
    (h : entry ∈ entries) : entries.lookup entry.1 = some entry.2 := by
  obtain ⟨left, right, rfl⟩ := List.append_of_mem h
  rw [List.map_append, List.map_cons, List.nodup_middle, List.nodup_cons] at hnodup
  have hleft : ∀ other ∈ left, entry.1 ≠ other.1 := by
    intro other hother he
    rw [he] at hnodup
    exact hnodup.1 (List.mem_append_left _ (List.mem_map_of_mem hother))
  exact List.lookup_eq_some_iff.2 ⟨left, right, rfl, by simpa using hleft⟩

theorem lookup_insertEntry (entries : List (Key × α)) (key other : Key) (value : α) :
    (insertEntry entries key value).lookup other =
      if other = key then some value else entries.lookup other := by
  induction entries with
  | nil =>
    by_cases h : other = key <;> simp [insertEntry, h]
  | cons entry rest ih =>
    obtain ⟨k, v⟩ := entry
    rw [insertEntry]
    by_cases hk : k = key
    · rw [if_pos hk]
      by_cases ho : other = key
      · rw [if_pos ho, ho, List.lookup_cons_self]
      · rw [if_neg ho, lookup_cons_of_ne ho, lookup_cons_of_ne (hk ▸ ho)]
    · rw [if_neg hk]
      by_cases ho : other = k
      · rw [if_neg (ho ▸ hk), ho, List.lookup_cons_self, List.lookup_cons_self]
      · rw [lookup_cons_of_ne ho, lookup_cons_of_ne ho, ih]

theorem lookup_map {β : Type} (f : Key → α → β) (entries : List (Key × α)) (key : Key) :
    (entries.map fun entry => (entry.1, f entry.1 entry.2)).lookup key =
      (entries.lookup key).map (f key) := by
  induction entries with
  | nil => rfl
  | cons entry rest ih =>
    obtain ⟨k, v⟩ := entry
    rw [List.map_cons]
    by_cases hk : key = k
    · rw [hk, List.lookup_cons_self, List.lookup_cons_self, Option.map_some]
    · rw [lookup_cons_of_ne hk, lookup_cons_of_ne hk, ih]

/-- Entries under distinct keys are determined by the order of the keys and what they hold. -/
theorem entries_ext {entries' : List (Key × α)} (hnodup : (entries.map (·.1)).Nodup)
    (hkeys : entries.map (·.1) = entries'.map (·.1))
    (hlookup : ∀ key, entries.lookup key = entries'.lookup key) : entries = entries' := by
  induction entries generalizing entries' with
  | nil => exact (List.map_eq_nil_iff.1 hkeys.symm).symm
  | cons entry rest ih =>
    obtain ⟨k, v⟩ := entry
    cases entries' with
    | nil => cases hkeys
    | cons entry' rest' =>
      obtain ⟨k', v'⟩ := entry'
      simp only [List.map_cons, List.cons.injEq] at hkeys
      obtain ⟨rfl, hrest⟩ := hkeys
      rw [List.map_cons, List.nodup_cons] at hnodup
      have hv := hlookup k
      rw [List.lookup_cons_self, List.lookup_cons_self, Option.some.injEq] at hv
      have htail : ∀ key, rest.lookup key = rest'.lookup key := by
        intro key
        by_cases hk : key = k
        · -- the key of the first entry does not come again
          rw [hk, lookup_eq_none_of_not_mem hnodup.1,
            lookup_eq_none_of_not_mem (hrest ▸ hnodup.1)]
        · have := hlookup key
          rwa [lookup_cons_of_ne hk, lookup_cons_of_ne hk] at this
      rw [hv, ih hnodup.2 hrest htail]

/-- Entries read off in the order of their keys. -/
theorem entries_eq_map {ι : Type} {names : List ι} {f : ι → Key} {g : ι → α}
    (hnodup : (entries.map (·.1)).Nodup) (hkeys : entries.map (·.1) = names.map f)
    (hlookup : ∀ name ∈ names, entries.lookup (f name) = some (g name)) :
    entries = names.map fun name => (f name, g name) := by
  apply List.ext_getElem?
  intro position
  have hposition := congrArg (·[position]?) hkeys
  simp only [List.getElem?_map] at hposition ⊢
  cases hentry : entries[position]? with
  | none =>
    rw [hentry, Option.map_none] at hposition
    rw [Option.map_eq_none_iff.1 hposition.symm, Option.map_none]
  | some entry =>
    rw [hentry, Option.map_some] at hposition
    obtain ⟨name, hname, hkey⟩ := Option.map_eq_some_iff.1 hposition.symm
    have hvalue := hlookup name (List.mem_of_getElem? hname)
    rw [hkey, lookup_eq_of_mem hnodup (List.mem_of_getElem? hentry), Option.some.injEq] at hvalue
    rw [hname, Option.map_some, hkey, ← hvalue]

end Entries

namespace KeyedList

variable {α : Type} {l : KeyedList α} {key : Key} {value : α}

/-! ## The hash index -/

theorem indexOf_concat (keys : List Key) (key : Key) :
    indexOf (keys ++ [key]) = (indexOf keys).insert key keys.length := by
  simp [indexOf, List.zipIdx_append, List.foldl_append]

theorem nextOf_concat (keys : List Key) (key : Key) :
    nextOf (keys ++ [key]) = key.nextAfter (nextOf keys) := by
  simp [nextOf, List.foldl_append]

/-- The index has one slot for each key, with its position. -/
theorem getElem?_indexOf {keys : List Key} (h : keys.Nodup) {key : Key} {position : Nat} :
    (indexOf keys)[key]? = some position ↔ keys[position]? = some key := by
  induction keys using List.reverseRecOn generalizing position with
  | nil => simp [indexOf]
  | append_singleton keys last ih =>
    rw [← List.concat_eq_append, List.nodup_concat] at h
    obtain ⟨hlast, hnodup⟩ := h
    rw [indexOf_concat, Std.HashMap.getElem?_insert]
    by_cases hk : last = key
    · subst hk
      rw [if_pos (beq_self_eq_true _), Option.some.injEq]
      refine ⟨fun hp => hp ▸ List.getElem?_concat_length, fun hp => ?_⟩
      rw [List.getElem?_append] at hp
      split at hp
      next => exact absurd (List.mem_of_getElem? hp) hlast
      next hle =>
        have := (List.getElem?_eq_some_iff.1 hp).1
        simp only [List.length_singleton] at this
        omega
    · rw [if_neg (by simpa using hk), ih hnodup, List.getElem?_append]
      split
      next => rfl
      next hle =>
        rw [List.getElem?_eq_none (by omega)]
        have hne : [last][position - keys.length]? ≠ some key := fun hp =>
          hk (List.mem_singleton.1 (List.mem_of_getElem? hp)).symm
        simpa using hne

theorem indexOf_eq_none {keys : List Key} (h : keys.Nodup) {key : Key} (hk : key ∉ keys) :
    (indexOf keys)[key]? = none := by
  rw [Option.eq_none_iff_forall_ne_some]
  intro position hp
  exact hk (List.mem_of_getElem? ((getElem?_indexOf h).1 hp))

/-! ## A well-formed list is its entries -/

theorem WellFormed.ext {l' : KeyedList α} (h : l.WellFormed) (h' : l'.WellFormed)
    (hl : l.toList = l'.toList) : l = l' := by
  have hkeys : l.keys = l'.keys := by rw [keys, keys, hl]
  have hindex : l.index = l'.index := by rw [h.index_eq, h'.index_eq, hkeys]
  have hnext : l.next = l'.next := by rw [h.next_eq, h'.next_eq, hkeys]
  have hentries : l.entries = l'.entries := Array.toList_inj.1 hl
  obtain ⟨entries, index, next⟩ := l
  obtain ⟨entries', index', next'⟩ := l'
  rw [KeyedList.mk.injEq]
  exact ⟨hentries, hindex, hnext⟩

namespace WellFormed

theorem getElem?_index (h : l.WellFormed) {position : Nat} :
    l.index[key]? = some position ↔ l.keys[position]? = some key := by
  rw [h.index_eq, getElem?_indexOf h.nodup]

theorem index_eq_none (h : l.WellFormed) (hk : key ∉ l.keys) : l.index[key]? = none := by
  rw [h.index_eq, indexOf_eq_none h.nodup hk]

theorem get?_eq_lookup (h : l.WellFormed) (key : Key) : l.get? key = l.toList.lookup key := by
  by_cases hk : key ∈ l.keys
  · obtain ⟨position, hp⟩ := List.getElem?_of_mem hk
    have hmap : l.toList[position]?.map (·.1) = some key := by rw [← List.getElem?_map]; exact hp
    obtain ⟨entry, hentry, rfl⟩ := Option.map_eq_some_iff.1 hmap
    have hposition : l.entries[position]? = some entry := by rwa [← Array.getElem?_toList]
    rw [get?, h.getElem?_index.2 hp, lookup_eq_of_mem h.nodup (List.mem_of_getElem? hentry)]
    simp [hposition]
  · rw [get?, h.index_eq_none hk, lookup_eq_none_of_not_mem hk]
    rfl

theorem get?_of_mem (h : l.WellFormed) {entry : Key × α} (hentry : entry ∈ l.toList) :
    l.get? entry.1 = some entry.2 := by
  rw [h.get?_eq_lookup, lookup_eq_of_mem h.nodup hentry]

theorem get?_eq_some_iff (h : l.WellFormed) : l.get? key = some value ↔ (key, value) ∈ l.toList := by
  refine ⟨fun hget => ?_, fun hentry => h.get?_of_mem hentry⟩
  rw [h.get?_eq_lookup] at hget
  obtain ⟨left, right, hl, -⟩ := List.lookup_eq_some_iff.1 hget
  rw [hl]
  exact List.mem_append_right left List.mem_cons_self

theorem mem_values_of_get? (h : l.WellFormed) (hget : l.get? key = some value) :
    value ∈ l.values := List.mem_map_of_mem (h.get?_eq_some_iff.1 hget)

/-- Inserting under a present key replaces the entry in place. -/
theorem insert_of_getElem? (h : l.WellFormed) {position : Nat}
    (hp : l.keys[position]? = some key) :
    l.insert key value = { l with entries := l.entries.setIfInBounds position (key, value) } := by
  rw [KeyedList.insert, getThenInsert?, h.getElem?_index.2 hp]

/-- Inserting under a new key appends an entry, with a slot for it. -/
theorem insert_of_not_mem (h : l.WellFormed) (hk : key ∉ l.keys) :
    l.insert key value =
      ⟨l.entries.push (key, value), l.index.insert key l.entries.size, key.nextAfter l.next⟩ := by
  rw [KeyedList.insert, getThenInsert?, h.index_eq_none hk]

theorem toList_insert (h : l.WellFormed) (key : Key) (value : α) :
    (l.insert key value).toList = insertEntry l.toList key value := by
  by_cases hk : key ∈ l.keys
  · obtain ⟨position, hp⟩ := List.getElem?_of_mem hk
    rw [insertEntry_eq_set h.nodup hp, h.insert_of_getElem? hp, toList, toList,
      Array.toList_setIfInBounds]
  · rw [insertEntry_of_not_mem hk, h.insert_of_not_mem hk, toList, toList, Array.toList_push]

theorem keys_insert (h : l.WellFormed) (key : Key) (value : α) :
    (l.insert key value).keys = if key ∈ l.keys then l.keys else l.keys ++ [key] := by
  rw [keys, h.toList_insert, map_fst_insertEntry, ← keys]

theorem insert (h : l.WellFormed) (key : Key) (value : α) : (l.insert key value).WellFormed := by
  have hkeys := h.keys_insert key value
  by_cases hk : key ∈ l.keys
  · obtain ⟨position, hp⟩ := List.getElem?_of_mem hk
    rw [if_pos hk, h.insert_of_getElem? hp] at hkeys
    rw [h.insert_of_getElem? hp]
    exact ⟨hkeys ▸ h.nodup, hkeys ▸ h.index_eq, hkeys ▸ h.next_eq⟩
  · have hsize : l.entries.size = l.keys.length := by simp [keys, toList]
    rw [if_neg hk, h.insert_of_not_mem hk] at hkeys
    rw [h.insert_of_not_mem hk]
    refine ⟨?_, ?_, ?_⟩ <;> rw [hkeys]
    · rw [← List.concat_eq_append, List.nodup_concat]
      exact ⟨hk, h.nodup⟩
    · rw [indexOf_concat, ← h.index_eq, ← hsize]
    · rw [nextOf_concat, ← h.next_eq]

end WellFormed

/-! ## Lists built from entries -/

section OfEntries

variable (entries : List (Key × α))

theorem ofEntries_concat (key : Key) (value : α) :
    ofEntries (entries ++ [(key, value)]) = (ofEntries entries).insert key value := by
  rw [ofEntries, List.foldl_append]
  rfl

theorem wellFormed_ofEntries : (ofEntries entries).WellFormed := by
  induction entries using List.reverseRecOn with
  | nil => exact wellFormed_empty
  | append_singleton entries last ih =>
    rw [ofEntries_concat]
    exact ih.insert last.1 last.2

/-- The keys come in the order in which they were first inserted. -/
theorem keys_ofEntries : (ofEntries entries).keys = (entries.map (·.1)).eraseDups := by
  induction entries using List.reverseRecOn with
  | nil => rfl
  | append_singleton entries last ih =>
    rw [ofEntries_concat, (wellFormed_ofEntries entries).keys_insert, ih, List.map_append,
      List.map_singleton, eraseDups_concat]
    simp only [List.mem_eraseDups]

/-- Each key holds what was last inserted under it. -/
theorem get?_ofEntries (key : Key) : (ofEntries entries).get? key = entries.reverse.lookup key := by
  rw [(wellFormed_ofEntries entries).get?_eq_lookup]
  induction entries using List.reverseRecOn with
  | nil => rfl
  | append_singleton entries last ih =>
    rw [ofEntries_concat, (wellFormed_ofEntries entries).toList_insert, lookup_insertEntry, ih,
      List.reverse_concat]
    by_cases hk : key = last.1
    · rw [if_pos hk, hk, List.lookup_cons_self]
    · rw [if_neg hk, lookup_cons_of_ne hk]

/-- Nothing is replaced where all keys are distinct. -/
theorem toList_ofEntries_of_nodup (h : (entries.map (·.1)).Nodup) :
    (ofEntries entries).toList = entries := by
  induction entries using List.reverseRecOn with
  | nil => rfl
  | append_singleton entries last ih =>
    obtain ⟨key, value⟩ := last
    rw [List.map_append, List.map_singleton, ← List.concat_eq_append, List.nodup_concat] at h
    have hentries : (ofEntries entries).toList = entries := ih h.2
    rw [ofEntries_concat, (wellFormed_ofEntries entries).toList_insert, hentries,
      insertEntry_of_not_mem h.1]

/-- Only the order in which the keys came and the last value under each count. -/
theorem ofEntries_congr {entries entries' : List (Key × α)}
    (hkeys : (entries.map (·.1)).eraseDups = (entries'.map (·.1)).eraseDups)
    (hlast : ∀ key, entries.reverse.lookup key = entries'.reverse.lookup key) :
    ofEntries entries = ofEntries entries' := by
  have h := wellFormed_ofEntries entries
  have h' := wellFormed_ofEntries entries'
  refine h.ext h' (entries_ext h.nodup ?_ fun key => ?_)
  · rw [← keys, ← keys, keys_ofEntries, keys_ofEntries, hkeys]
  · rw [← h.get?_eq_lookup, ← h'.get?_eq_lookup, get?_ofEntries, get?_ofEntries, hlast]

end OfEntries

end KeyedList

end LooseTypes
