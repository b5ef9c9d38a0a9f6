import LooseTypes.Proofs.Value.Interchange

/-!
# Members of documents

`Json.member?` says what a document has under a name, by comparing whole texts: in an object the last
member of this name, in an array the item whose position the name gives in digits. A value goes by
keys instead, and a text that reads as an index is one. Nothing is lost on the way: different texts
address different keys (`Key.ofText_inj`), and under the key of a name the value of a document has
just what the document has under the name (`Value.field_ofJson`).
-/

namespace LooseTypes

/-! ## Names of positions -/

/-- The position whose digits the name is. -/
def position? (name : String) : Option Nat :=
  let position := ofDigits name.toList
  if digits position = name.toList then some position else none

def positionName (position : Nat) : String := String.ofList (digits position)

theorem position?_eq_some_iff {name : String} {position : Nat} :
    position? name = some position ↔ name = positionName position := by
  simp only [position?, positionName]
  constructor
  · intro h
    split at h
    next hdigits =>
      cases h
      rw [hdigits, String.ofList_toList]
    next => cases h
  · rintro rfl
    rw [String.toList_ofList, ofDigits_digits, if_pos rfl]

example : ["7", "07", "-0", "+7"].map position? = [some 7, none, none, none] := by decide

namespace Key

theorem ofText_inj {name name' : String} : ofText name = ofText name' ↔ name = name' := by
  refine ⟨fun h => ?_, fun h => h ▸ rfl⟩
  rw [← text_ofText name, h, text_ofText]

theorem map_text_map_ofText (names : List String) : (names.map ofText).map text = names := by
  rw [List.map_map]
  exact (List.map_congr_left fun name _ => text_ofText name).trans (List.map_id names)

theorem text_ofNat {n : Nat} (h : n < 2 ^ 63) : (index (.ofNat n)).text = positionName n := by
  rw [text, Int64.toInt_ofNat_of_lt h, intText, if_neg (by omega), Int.natAbs_natCast, positionName]

/-- A name addresses the index of a position exactly if it is the name of the position. -/
theorem isPosition_ofText_iff {name : String} {n : Nat} (h : n < 2 ^ 63) :
    (ofText name).isPosition n = true ↔ name = positionName n := by
  rw [isPosition_iff]
  constructor
  · rintro ⟨i, hkey, hi⟩
    have hofNat : i = .ofNat n := by rw [← Int64.toInt_inj, hi, Int64.toInt_ofNat_of_lt h]
    rw [← text_ofText name, hkey, hofNat, text_ofNat h]
  · rintro rfl
    refine ⟨.ofNat n, ?_, Int64.toInt_ofNat_of_lt h⟩
    rw [← text_ofNat h, ofText_text_index]

end Key

/-- The keys of some names are the indices from zero exactly if the names are those of the positions. -/
theorem arePositions_map_ofText_iff {names : List String} (h : names.length ≤ 2 ^ 63) :
    KeyedList.ArePositions (names.map Key.ofText) ↔
      names = (List.range names.length).map positionName := by
  induction names using List.reverseRecOn with
  | nil => exact ⟨fun _ => rfl, fun _ key hkey => absurd hkey List.not_mem_nil⟩
  | append_singleton names last ih =>
    rw [List.length_append, List.length_singleton] at h ⊢
    rw [List.map_append, List.map_singleton, KeyedList.arePositions_concat, ih (by omega),
      List.length_map, Key.isPosition_ofText_iff (by omega), List.range_succ, List.map_append,
      List.map_singleton, List.append_singleton_inj]

/-! ## Names in documents -/

/-- What a document has under a name: in an object the last member of this name, and in an array the
item at the position of this name. -/
def Json.member? : Json → String → Option Json
  | .object members, name => members.reverse.lookup name
  | .array items, name => (position? name).bind (items[·]?)
  | _, _ => none

/-- The names of some members, in the order in which they first come. -/
def memberNames (members : List (String × Json)) : List String := (members.map (·.1)).eraseDups

theorem nodup_memberNames (members : List (String × Json)) : (memberNames members).Nodup :=
  nodup_eraseDups _

theorem length_memberNames_le (members : List (String × Json)) :
    (memberNames members).length ≤ members.length := by
  rw [← members.length_map (·.1)]
  exact (nodup_memberNames members).length_le_of_subset fun _ => List.mem_eraseDups.1

/-- The value of what a document has under a name, and null if it has nothing there. -/
def Json.valueUnder (j : Json) (name : String) : Value :=
  ((j.member? name).map Value.ofJson).getD .null

/-- A lookup among renamed members, where no two names become one. -/
theorem lookup_map_of_injective {α β : Type} {rename : String → Key}
    (h : Function.Injective rename) (f : α → β) (members : List (String × α)) (name : String) :
    (members.map fun m => (rename m.1, f m.2)).lookup (rename name) =
      (members.lookup name).map f := by
  induction members with
  | nil => rfl
  | cons m members ih =>
    obtain ⟨other, a⟩ := m
    rw [List.map_cons]
    by_cases hname : name = other
    · rw [hname, List.lookup_cons_self, List.lookup_cons_self, Option.map_some]
    · have hkey : rename name ≠ rename other := fun he => hname (h he)
      rw [lookup_cons_of_ne hkey, ih, List.lookup_cons, beq_eq_false_iff_ne.2 hname]

namespace Value

theorem keys_ofEntries_ofMembers (members : List (String × Json)) :
    (KeyedList.ofEntries (ofMembers members)).keys = (memberNames members).map Key.ofText := by
  rw [KeyedList.keys_ofEntries, ofMembers_eq_map, memberNames,
    ← eraseDups_map_of_injective fun _ _ => Key.ofText_inj.1, List.map_map, List.map_map]
  rfl

theorem get?_ofEntries_ofMembers (members : List (String × Json)) (name : String) :
    (KeyedList.ofEntries (ofMembers members)).get? (.ofText name) =
      ((Json.object members).member? name).map ofJson := by
  rw [KeyedList.get?_ofEntries, ofMembers_eq_map, ← List.map_reverse, Json.member?]
  exact lookup_map_of_injective (fun _ _ => Key.ofText_inj.1) ofJson members.reverse name

theorem get?_ofList_ofItems {items : List Json} (h : items.length ≤ 2 ^ 63) (name : String) :
    (KeyedList.ofList (ofItems items)).get? (.ofText name) =
      ((Json.array items).member? name).map ofJson := by
  rw [ofItems_eq_map, Json.member?]
  have hlength : (items.map ofJson).length ≤ 2 ^ 63 := by rwa [List.length_map]
  obtain ⟨hseq, hvalues⟩ := KeyedList.sequential_ofList hlength
  ext v
  rw [(KeyedList.wellFormed_ofList _).get?_eq_some_iff_of_isSequential hseq, hvalues]
  simp only [List.getElem?_map, Option.map_eq_some_iff, Option.bind_eq_some_iff]
  constructor
  · rintro ⟨n, hkey, j, hj, rfl⟩
    obtain ⟨hlt, -⟩ := List.getElem?_eq_some_iff.1 hj
    rw [Key.isPosition_ofText_iff (by omega)] at hkey
    exact ⟨j, ⟨n, position?_eq_some_iff.2 hkey, hj⟩, rfl⟩
  · rintro ⟨j, ⟨n, hname, hj⟩, rfl⟩
    obtain ⟨hlt, -⟩ := List.getElem?_eq_some_iff.1 hj
    rw [position?_eq_some_iff] at hname
    exact ⟨n, (Key.isPosition_ofText_iff (by omega)).2 hname, j, hj, rfl⟩

/-- The field of a name, if an array has an index for each of its items. -/
theorem field_ofJson {j : Json} (h : ∀ items, j = .array items → items.length ≤ 2 ^ 63)
    (name : String) : (ofJson j).field (.ofText name) = j.valueUnder name := by
  cases j with
  | null | bool | int | float | str => rfl
  | array items =>
    rw [ofJson, field, list?, Option.bind_some, get?_ofList_ofItems (h items rfl), Json.valueUnder]
  | object members =>
    rw [ofJson, field, list?, Option.bind_some, get?_ofEntries_ofMembers, Json.valueUnder]

end Value

end LooseTypes
