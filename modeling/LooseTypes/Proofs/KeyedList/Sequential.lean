import LooseTypes.Proofs.KeyedList.Entries
import Mathlib.Algebra.Group.Int.Defs
import Mathlib.Algebra.Group.Nat.Defs

/-!
# Lists under the indices from zero

Values pushed one after the other are entries under index keys (`exists_ofEntries_eq_ofList`). If the
keys of a list are the indices from zero in order, its values alone determine it, the next index
included (`WellFormed.ofList_values`), and a lookup finds the value at a position
(`WellFormed.get?_eq_some_iff_of_isSequential`); all other lists are determined by their entries
(`WellFormed.ofEntries_toList`).
-/

namespace LooseTypes

theorem Key.isPosition_iff {key : Key} {n : Nat} :
    key.isPosition n = true ↔ ∃ i : Int64, key = .index i ∧ i.toInt = n := by
  cases key <;> simp [isPosition]

theorem Key.isPosition_inj {key key' : Key} {n : Nat} (h : key.isPosition n = true)
    (h' : key'.isPosition n = true) : key = key' := by
  obtain ⟨i, rfl, hi⟩ := isPosition_iff.1 h
  obtain ⟨i', rfl, hi'⟩ := isPosition_iff.1 h'
  rw [Int64.toInt_inj.1 (hi.trans hi'.symm)]

theorem toInt_nextInt64 (i : Int64) : (nextInt64 i).toInt = min (i.toInt + 1) (2 ^ 63 - 1) := by
  have hlow := i.le_toInt
  have hlt := i.toInt_lt
  unfold nextInt64
  split
  next hmax =>
    rw [hmax, Int64.toInt_maxValue]
    omega
  next hmax =>
    have hne : i.toInt ≠ 2 ^ 63 - 1 := by
      rw [← Int64.toInt_maxValue, Ne, Int64.toInt_inj]
      exact hmax
    have hone : (1 : Int64).toInt = 1 := by decide
    rw [Int64.toInt_add, hone, Int.bmod_eq_of_le] <;> omega

theorem mem_of_mem_insertEntry {α : Type} {entries : List (Key × α)} {key : Key} {value : α}
    {entry : Key × α} (h : entry ∈ insertEntry entries key value) :
    entry = (key, value) ∨ entry ∈ entries := by
  induction entries with
  | nil => exact .inl (List.mem_singleton.1 h)
  | cons first rest ih =>
    rw [insertEntry] at h
    split at h
    next => exact (List.mem_cons.1 h).imp_right (List.mem_cons_of_mem first)
    next =>
      rcases List.mem_cons.1 h with rfl | h
      · exact .inr List.mem_cons_self
      · exact (ih h).imp_right (List.mem_cons_of_mem first)

namespace KeyedList

variable {α : Type} {l : KeyedList α}

theorem mem_of_mem_ofEntries {entries : List (Key × α)} {entry : Key × α}
    (h : entry ∈ (ofEntries entries).toList) : entry ∈ entries := by
  induction entries using List.reverseRecOn with
  | nil => exact h
  | append_singleton entries last ih =>
    obtain ⟨key, value⟩ := last
    rw [ofEntries_concat, (wellFormed_ofEntries entries).toList_insert] at h
    rcases mem_of_mem_insertEntry h with rfl | h
    · exact List.mem_append_right entries List.mem_cons_self
    · exact List.mem_append_left _ (ih h)

/-- A well-formed list is built again from its entries. -/
theorem WellFormed.ofEntries_toList (h : l.WellFormed) : ofEntries l.toList = l :=
  (wellFormed_ofEntries l.toList).ext h (toList_ofEntries_of_nodup l.toList h.nodup)

/-! ## Lists of values -/

theorem ofList_concat (values : List α) (value : α) :
    ofList (values ++ [value]) = (ofList values).push value := by
  rw [ofList, List.foldl_append]
  rfl

/-- Pushed values are entries under indices. -/
theorem exists_ofEntries_eq_ofList (values : List α) :
    ∃ entries : List (Key × α), ofEntries entries = ofList values ∧
      entries.map (·.2) = values ∧ ∀ entry ∈ entries, ∃ i, entry.1 = .index i := by
  induction values using List.reverseRecOn with
  | nil => exact ⟨[], rfl, rfl, fun entry h => absurd h List.not_mem_nil⟩
  | append_singleton values value ih =>
    obtain ⟨entries, hentries, hvalues, hindices⟩ := ih
    refine ⟨entries ++ [(.index (ofList values).next, value)], ?_, ?_, ?_⟩
    · rw [ofEntries_concat, hentries, ofList_concat, push]
    · rw [List.map_append, hvalues, List.map_singleton]
    · exact List.forall_mem_append.2 ⟨hindices, List.forall_mem_singleton.2 ⟨_, rfl⟩⟩

theorem wellFormed_ofList (values : List α) : (ofList values).WellFormed := by
  obtain ⟨entries, hentries, -⟩ := exists_ofEntries_eq_ofList values
  rw [← hentries]
  exact wellFormed_ofEntries entries

theorem mem_of_mem_values_ofList {values : List α} {value : α}
    (h : value ∈ (ofList values).values) : value ∈ values := by
  obtain ⟨entries, hentries, rfl, -⟩ := exists_ofEntries_eq_ofList values
  rw [← hentries] at h
  obtain ⟨entry, hentry, rfl⟩ := List.mem_map.1 h
  exact List.mem_map_of_mem (mem_of_mem_ofEntries hentry)

/-! ## Sequential lists -/

/-- Each key is the index of its position. -/
def ArePositions (keys : List Key) : Prop :=
  ∀ key ∈ keys.zipIdx, key.1.isPosition key.2 = true

theorem isSequential_iff : l.isSequential = true ↔ ArePositions l.keys := List.all_eq_true

theorem arePositions_concat {keys : List Key} {key : Key} :
    ArePositions (keys ++ [key]) ↔ ArePositions keys ∧ key.isPosition keys.length = true := by
  simp [ArePositions, List.zipIdx_append, or_imp, forall_and]

theorem arePositions_iff_getElem? {keys : List Key} :
    ArePositions keys ↔ ∀ (position : Nat) (key : Key),
      keys[position]? = some key → key.isPosition position = true := by
  simp only [ArePositions, Prod.forall, List.mem_zipIdx_iff_getElem?]
  exact ⟨fun h position key => h key position, fun h key position => h position key⟩

theorem isSequential_iff_getElem? :
    l.isSequential = true ↔ ∀ (position : Nat) (key : Key),
      l.keys[position]? = some key → ∃ i : Int64, key = .index i ∧ i.toInt = position := by
  simp only [isSequential_iff, arePositions_iff_getElem?, Key.isPosition_iff]

theorem ArePositions.nodup {keys : List Key} (h : ArePositions keys) : keys.Nodup := by
  induction keys using List.reverseRecOn with
  | nil => exact List.nodup_nil
  | append_singleton keys last ih =>
    obtain ⟨hkeys, hlast⟩ := arePositions_concat.1 h
    rw [← List.concat_eq_append, List.nodup_concat]
    refine ⟨fun hmem => ?_, ih hkeys⟩
    -- an earlier key is the index of an earlier position
    obtain ⟨position, hposition⟩ := List.getElem?_of_mem hmem
    obtain ⟨hlt, -⟩ := List.getElem?_eq_some_iff.1 hposition
    obtain ⟨i, rfl, hi⟩ := Key.isPosition_iff.1 (arePositions_iff_getElem?.1 hkeys _ _ hposition)
    obtain ⟨i', he, hi'⟩ := Key.isPosition_iff.1 hlast
    cases he
    omega

/-- After the indices below `n` comes `n`. -/
theorem toInt_nextOf {keys : List Key} (h : ArePositions keys) (hlength : keys.length < 2 ^ 63) :
    (nextOf keys).toInt = keys.length := by
  induction keys using List.reverseRecOn with
  | nil => rfl
  | append_singleton keys last ih =>
    rw [List.length_append, List.length_singleton] at hlength ⊢
    obtain ⟨hkeys, hlast⟩ := arePositions_concat.1 h
    obtain ⟨i, rfl, hi⟩ := Key.isPosition_iff.1 hlast
    have hnext : (nextOf keys).toInt = keys.length := ih hkeys (by omega)
    have hle : nextOf keys ≤ i := by
      rw [Int64.le_iff_toInt_le]
      omega
    rw [nextOf_concat, Key.nextAfter, if_pos hle, toInt_nextInt64]
    omega

theorem ofList_map_snd {entries : List (Key × α)} (h : ArePositions (entries.map (·.1))) :
    ofList (entries.map (·.2)) = ofEntries entries := by
  induction entries using List.reverseRecOn with
  | nil => rfl
  | append_singleton entries last ih =>
    obtain ⟨key, value⟩ := last
    rw [List.map_append, List.map_singleton] at h
    obtain ⟨hentries, hkey⟩ := arePositions_concat.1 h
    obtain ⟨i, rfl, hi⟩ := Key.isPosition_iff.1 hkey
    have hkeys : (ofEntries entries).keys = entries.map (·.1) := by
      rw [keys, toList_ofEntries_of_nodup entries hentries.nodup]
    -- the index of the last entry is the next one after the entries before it
    have hnext : (ofEntries entries).next = i := by
      have hlt := i.toInt_lt
      have hnextOf := toInt_nextOf hentries (by omega)
      rw [(wellFormed_ofEntries entries).next_eq, hkeys, ← Int64.toInt_inj, hnextOf, hi]
    rw [List.map_append, List.map_singleton, ofList_concat, ih hentries, push, hnext,
      ofEntries_concat]

theorem WellFormed.ofList_values (h : l.WellFormed) (hseq : l.isSequential = true) :
    ofList l.values = l := by
  rw [values, ofList_map_snd (isSequential_iff.1 hseq), h.ofEntries_toList]

/-- Values come under the indices from zero as long as there are indices for them. -/
theorem sequential_ofList {values : List α} (h : values.length ≤ 2 ^ 63) :
    (ofList values).isSequential = true ∧ (ofList values).values = values := by
  let entries := values.zipIdx.map fun v => (Key.index (.ofNat v.2), v.1)
  have hvalues : entries.map (·.2) = values := by simp [entries, Function.comp_def]
  have hpositions : ArePositions (entries.map (·.1)) := by
    rw [arePositions_iff_getElem?]
    intro position key hkey
    simp only [entries, List.map_map, List.getElem?_map, List.getElem?_zipIdx, Option.map_map,
      Option.map_eq_some_iff, Function.comp_apply, Nat.zero_add] at hkey
    obtain ⟨v, hv, rfl⟩ := hkey
    obtain ⟨hlt, -⟩ := List.getElem?_eq_some_iff.1 hv
    exact Key.isPosition_iff.2 ⟨_, rfl, Int64.toInt_ofNat_of_lt (by omega)⟩
  have hlist : (ofList values).toList = entries := by
    rw [← toList_ofEntries_of_nodup entries hpositions.nodup, ← ofList_map_snd hpositions, hvalues]
  rw [isSequential_iff, keys, KeyedList.values, hlist]
  exact ⟨hpositions, hvalues⟩

/-- What a sequential list holds under the index of a position is the value there. -/
theorem WellFormed.get?_eq_some_iff_of_isSequential (h : l.WellFormed)
    (hseq : l.isSequential = true) {key : Key} {value : α} :
    l.get? key = some value ↔
      ∃ position, key.isPosition position = true ∧ l.values[position]? = some value := by
  have hpositions := arePositions_iff_getElem?.1 (isSequential_iff.1 hseq)
  rw [h.get?_eq_some_iff]
  constructor
  · intro hentry
    obtain ⟨position, hp⟩ := List.getElem?_of_mem hentry
    refine ⟨position, hpositions position key ?_, ?_⟩
    · rw [keys, List.getElem?_map, hp, Option.map_some]
    · rw [values, List.getElem?_map, hp, Option.map_some]
  · rintro ⟨position, hkey, hvalue⟩
    rw [values, List.getElem?_map] at hvalue
    obtain ⟨⟨key', _⟩, hentry, rfl⟩ := Option.map_eq_some_iff.1 hvalue
    have hkey' : key'.isPosition position = true := by
      apply hpositions
      rw [keys, List.getElem?_map, hentry, Option.map_some]
    rw [Key.isPosition_inj hkey hkey']
    exact List.mem_of_getElem? hentry

end KeyedList

end LooseTypes
