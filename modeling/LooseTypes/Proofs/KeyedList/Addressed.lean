import LooseTypes.Proofs.Key
import LooseTypes.Proofs.KeyedList.Reachable
import LooseTypes.Proofs.Value.Members

/-!
# Lists that are addressed by texts

A list is `Addressed` if values came into it only under the keys of texts, under indices or by `push`.
Then it has no name that reads as an index, a key is known by its text, and no two entries have the
same text (`Addressed.nodup_texts`): what is found under a text is the value of the one entry whose
key has this text (`Addressed.get?_ofText_eq_some_iff`).
-/

namespace LooseTypes

namespace Key

theorem isNormal_index (i : Int64) : (index i).IsNormal := trivial

/-- A normal key is known by its text. -/
theorem IsNormal.text_inj {key key' : Key} (h : key.IsNormal) (h' : key'.IsNormal)
    (htext : key.text = key'.text) : key = key' := by
  rw [← ofText_text_iff.2 h, htext, ofText_text_iff.2 h']

/-- A text is the key of an index just if it is the index as it is printed. -/
theorem ofText_eq_index_iff {s : String} {i : Int64} :
    ofText s = .index i ↔ CanonicalDecimal s.toList i.toInt := by
  rw [canonicalDecimal_iff]
  constructor
  · intro h
    rw [← text_ofText s, h, text, String.toList_ofList]
  · intro h
    rw [← String.ofList_toList (s := s), h]
    exact ofText_text_index i

theorem ofText_eq_name_iff {s : String} :
    ofText s = .name s ↔ ∀ i : Int64, ¬CanonicalDecimal s.toList i.toInt := by
  constructor
  · intro h i hi
    rw [ofText_eq_index_iff.2 hi] at h
    cases h
  · intro h
    have htext := text_ofText s
    cases hkey : ofText s with
    | index i => exact absurd (ofText_eq_index_iff.1 hkey) (h i)
    | name name =>
      rw [hkey] at htext
      rw [← htext, text]

end Key

namespace KeyedList

variable {α : Type} {l : KeyedList α}

/-- What comes from the empty list by putting values under the keys of texts and under indices, by
appending them, and by changing them in place. -/
inductive Addressed : KeyedList α → Prop where
  | empty : Addressed .empty
  | insertText {l : KeyedList α} (s : String) (value : α) :
    Addressed l → Addressed (l.insert (.ofText s) value)
  | insertIndex {l : KeyedList α} (i : Int64) (value : α) :
    Addressed l → Addressed (l.insert (.index i) value)
  | push {l : KeyedList α} (value : α) : Addressed l → Addressed (l.push value)
  | mapValuesM {l l' : KeyedList α} {ε σ : Type} {f : α → ExceptT ε (StateM σ) α} {s t : σ} :
    Addressed l → (l.mapValuesM f).run.run s = (.ok l', t) → Addressed l'

/-- The list is well-formed, and no name in it reads as an index. -/
structure IsNormal (l : KeyedList α) : Prop where
  wellFormed : l.WellFormed
  isNormal_key : ∀ key ∈ l.keys, key.IsNormal

namespace IsNormal

/-- A value under a normal key more. -/
theorem insert (h : l.IsNormal) {key : Key} (hkey : key.IsNormal) (value : α) :
    (l.insert key value).IsNormal where
  wellFormed := h.wellFormed.insert key value
  isNormal_key other hother := by
    rw [h.wellFormed.keys_insert] at hother
    split at hother
    next => exact h.isNormal_key other hother
    next =>
      rcases List.mem_append.1 hother with hold | hnew
      · exact h.isNormal_key other hold
      · rw [List.mem_singleton.1 hnew]
        exact hkey

theorem nodup_texts (h : l.IsNormal) : (l.toList.map fun entry => entry.1.text).Nodup := by
  have hkeys : (l.toList.map fun entry => entry.1.text) = l.keys.map Key.text := by
    rw [keys, List.map_map]
    rfl
  rw [hkeys]
  exact h.wellFormed.nodup.map_on fun key hkey key' hkey' htext =>
    (h.isNormal_key key hkey).text_inj (h.isNormal_key key' hkey') htext

/-- What is found under a text is the value of an entry whose key has this text. -/
theorem get?_ofText_eq_some_iff (h : l.IsNormal) {s : String} {value : α} :
    l.get? (.ofText s) = some value ↔ ∃ key, (key, value) ∈ l.toList ∧ key.text = s := by
  rw [h.wellFormed.get?_eq_some_iff]
  constructor
  · exact fun hentry => ⟨_, hentry, Key.text_ofText s⟩
  · rintro ⟨key, hentry, rfl⟩
    rw [Key.ofText_text_iff.2 (h.isNormal_key key (List.mem_map_of_mem hentry))]
    exact hentry

theorem get?_ofText_eq_none_iff (h : l.IsNormal) {s : String} :
    l.get? (.ofText s) = none ↔ ∀ entry ∈ l.toList, entry.1.text ≠ s := by
  rw [Option.eq_none_iff_forall_ne_some]
  constructor
  · rintro hnone ⟨key, value⟩ hentry htext
    exact hnone value (h.get?_ofText_eq_some_iff.2 ⟨key, hentry, htext⟩)
  · intro hother value hget
    obtain ⟨key, hentry, htext⟩ := h.get?_ofText_eq_some_iff.1 hget
    exact hother (key, value) hentry htext

end IsNormal

/-- Each operation keeps a list normal. -/
theorem Addressed.isNormal (h : l.Addressed) : l.IsNormal := by
  induction h with
  | empty => exact ⟨wellFormed_empty, fun key hkey => absurd hkey List.not_mem_nil⟩
  | insertText s value _ ih => exact ih.insert (Key.isNormal_ofText s) value
  | insertIndex i value _ ih => exact ih.insert (Key.isNormal_index i) value
  | push value _ ih => exact ih.insert (Key.isNormal_index _) value
  | mapValuesM _ hrun ih =>
    refine ⟨ih.wellFormed.mapValuesM hrun, fun key hkey => ?_⟩
    rw [keys_of_run_mapValuesM hrun] at hkey
    exact ih.isNormal_key key hkey

end KeyedList

/-- The key of a text stands for it: it is an index just if the text is the decimal of a 64-bit integer
as it is printed, and the text as a name otherwise. It has the text again, so different texts have
different keys. Therefore an addressed list has no two entries with the same text, and under a text
there is the value of the entry that has it. -/
theorem key_stands_for_text :
    (∀ s : String, Key.ofBytes s = Key.ofText s ∧
      (∀ i : Int64, Key.ofText s = .index i ↔ CanonicalDecimal s.toList i.toInt) ∧
      (Key.ofText s = .name s ↔ ∀ i : Int64, ¬CanonicalDecimal s.toList i.toInt) ∧
      (Key.ofText s).text = s) ∧
    (∀ s t : String, Key.ofText s = Key.ofText t → s = t) ∧
    (∀ i : Int64, Key.ofText (String.ofList (intText i.toInt)) = .index i) ∧
    ∀ l : KeyedList Value, l.Addressed →
      (l.toList.map fun entry => entry.1.text).Nodup ∧
      ∀ s : String,
        (∀ v, l.get? (.ofText s) = some v ↔ ∃ key, (key, v) ∈ l.toList ∧ key.text = s) ∧
        (l.get? (.ofText s) = none ↔ ∀ entry ∈ l.toList, entry.1.text ≠ s) := by
  refine ⟨fun s => ?_, fun s t => Key.ofText_inj.1, Key.ofText_text_index, fun l hl => ?_⟩
  · exact ⟨Key.ofBytes_eq_ofText s, fun i => Key.ofText_eq_index_iff, Key.ofText_eq_name_iff,
      Key.text_ofText s⟩
  · have hnormal := hl.isNormal
    exact ⟨hnormal.nodup_texts, fun s => ⟨fun v => hnormal.get?_ofText_eq_some_iff,
      hnormal.get?_ofText_eq_none_iff⟩⟩

theorem key_stands_for_text_negative_index :
    Key.ofText "-7" = .index (-7) ∧ Key.ofText "-0" = .name "-0" ∧
      (Key.ofText "7" = Key.ofText (String.ofList ['7']) ∧ "7" = String.ofList ['7']) ∧
      let l : KeyedList Value := KeyedList.empty.insert (.ofText "-7") .null
      l.Addressed ∧ l.get? (.ofText "-7") = some .null ∧ l.get? (.ofText "-0") = none := by
  obtain ⟨htext, hinj, -, hlist⟩ := key_stands_for_text
  have hseven : CanonicalDecimal "-7".toList (-7 : Int64).toInt := canonicalDecimal_iff.2 rfl
  have hzero : ∀ i : Int64, ¬CanonicalDecimal "-0".toList i.toInt := by
    intro i hi
    have hread := intOfText?_eq_some_iff.2 (canonicalDecimal_iff.1 hi)
    cases hread
  have hl : (KeyedList.empty.insert (.ofText "-7") Value.null).Addressed :=
    .insertText "-7" Value.null .empty
  have htoList : (KeyedList.empty.insert (.ofText "-7") Value.null).toList =
      [(.ofText "-7", .null)] := KeyedList.wellFormed_empty.toList_insert _ _
  obtain ⟨-, hget⟩ := hlist _ hl
  refine ⟨(htext "-7").2.1 _ |>.2 hseven, (htext "-0").2.2.1.2 hzero,
    ⟨rfl, hinj "7" (String.ofList ['7']) rfl⟩, hl, ?_, ?_⟩
  · refine ((hget "-7").1 .null).2 ⟨.ofText "-7", ?_, Key.text_ofText "-7"⟩
    rw [htoList]
    exact List.mem_singleton_self _
  · refine (hget "-0").2.2 ?_
    rw [htoList]
    intro entry hentry
    rw [List.mem_singleton.1 hentry, Key.text_ofText]
    decide

end LooseTypes
