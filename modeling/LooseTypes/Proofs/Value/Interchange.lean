import LooseTypes.Value.Interchange
import LooseTypes.Proofs.Json.Reader
import LooseTypes.Proofs.Value.Lists

/-!
# Values come back from JSON

`Value.Portable n` says which values JSON has a form for: no object, no NaN and no infinity, no name
that is the text of an index, and lists at most `n` deep. Each value that a document stands for is
portable (`Value.portable_ofJson`). The text of a portable value is read as the value, with its keys
and its next index, but for the finite numbers, which need not be read as they were
(`Value.ofJsonText?_jsonText`). Of other values, those that become portable with null in place of NaN
and the infinities come back with null there.
-/

namespace LooseTypes

/-! ## Keys -/

/-- The key is not a name that reads as an index. -/
def Key.IsNormal : Key → Prop
  | .index _ => True
  | .name s => ∀ i : Int64, s ≠ (Key.index i).text

namespace Key

/-- A key is read again from its text exactly if it is normal. -/
theorem ofText_text_iff {key : Key} : ofText key.text = key ↔ key.IsNormal := by
  cases key with
  | index i => exact ⟨fun _ => trivial, fun _ => ofText_text_index i⟩
  | name s =>
    constructor
    · rintro h i rfl
      have hname : ofText (index i).text = .name (index i).text := h
      rw [ofText_text_index] at hname
      cases hname
    · intro h
      have htext : (ofText s).text = s := text_ofText s
      rw [text]
      cases hkey : ofText s with
      | index i =>
        rw [hkey] at htext
        exact absurd htext.symm (h i)
      | name other =>
        rw [hkey] at htext
        rw [← htext, text]

theorem isNormal_ofText (s : String) : (ofText s).IsNormal := by
  rw [← ofText_text_iff, text_ofText]

end Key

namespace Value

/-! ## Portable values -/

/-- JSON can hold the value, and lists stand in it at most `n` deep. The lists are well-formed, as
every operation leaves them. -/
inductive Portable : Nat → Value → Prop where
  | null (n : Nat) : Portable n .null
  | bool (n : Nat) (b : Bool) : Portable n (.bool b)
  | int (n : Nat) (i : Int64) : Portable n (.int i)
  | float (n : Nat) (negative : Bool) (rank : Fin Binary64.rankLimit) :
    Portable n (.float (.finite negative rank))
  | str (n : Nat) (s : String) : Portable n (.str s)
  | list {n : Nat} {items : KeyedList Value} : items.WellFormed →
    (∀ key ∈ items.keys, key.IsNormal) → (∀ v ∈ items.values, Portable n v) →
    Portable (n + 1) (.list items)

section Portable

variable {n : Nat}

theorem portable_ofEntries {entries : List (Key × Value)}
    (h : ∀ entry ∈ entries, entry.1.IsNormal ∧ Portable n entry.2) :
    Portable (n + 1) (.list (.ofEntries entries)) := by
  have hmem : ∀ entry ∈ (KeyedList.ofEntries entries).toList,
      entry.1.IsNormal ∧ Portable n entry.2 :=
    fun entry hentry => h entry (KeyedList.mem_of_mem_ofEntries hentry)
  exact .list (KeyedList.wellFormed_ofEntries entries)
    (List.forall_mem_map.2 fun entry hentry => (hmem entry hentry).1)
    (List.forall_mem_map.2 fun entry hentry => (hmem entry hentry).2)

theorem portable_ofList {values : List Value} (h : ∀ v ∈ values, Portable n v) :
    Portable (n + 1) (.list (.ofList values)) := by
  obtain ⟨entries, hentries, rfl, hindices⟩ := KeyedList.exists_ofEntries_eq_ofList values
  rw [← hentries]
  refine portable_ofEntries fun entry hentry => ⟨?_, h entry.2 (List.mem_map_of_mem hentry)⟩
  obtain ⟨i, hi⟩ := hindices entry hentry
  rw [hi]
  trivial

end Portable

/-! ## Documents of lists -/

theorem ofItems_eq_map (items : List Json) : ofItems items = items.map ofJson := by
  induction items with
  | nil => rfl
  | cons j items ih => rw [ofItems, ih, List.map_cons]

theorem ofMembers_eq_map (members : List (String × Json)) :
    ofMembers members = members.map fun m => (.ofText m.1, ofJson m.2) := by
  induction members with
  | nil => rfl
  | cons m members ih =>
    obtain ⟨name, j⟩ := m
    rw [ofMembers, ih, List.map_cons]

theorem toItems_eq_map (entries : List (Key × Value)) :
    toItems entries = entries.map fun entry => entry.2.toJson := by
  induction entries with
  | nil => rfl
  | cons entry entries ih =>
    obtain ⟨key, v⟩ := entry
    rw [toItems, ih, List.map_cons]

theorem toMembers_eq_map (entries : List (Key × Value)) :
    toMembers entries = entries.map fun entry => (entry.1.text, entry.2.toJson) := by
  induction entries with
  | nil => rfl
  | cons entry entries ih =>
    obtain ⟨key, v⟩ := entry
    rw [toMembers, ih, List.map_cons]

theorem toJson_list (items : KeyedList Value) :
    (list items).toJson =
      if items.isSequential then .array (items.toList.map fun entry => entry.2.toJson)
      else .object (items.toList.map fun entry => (entry.1.text, entry.2.toJson)) := by
  obtain ⟨⟨entries⟩, index, next⟩ := items
  rw [toJson, toItems_eq_map, toMembers_eq_map]
  rfl

/-! ## What is read where a value was written -/

section ReadBack

variable (read : Fin Binary64.rankLimit → Fin Binary64.rankLimit)

mutual

/-- The value that is read where one was written, if `read` says which rank is read where that of a
finite number was written. NaN and the infinities are written as null. -/
def readBack : Value → Value
  | .float (.finite negative rank) => .float (.finite negative (read rank))
  | .float _ => .null
  | .list ⟨⟨entries⟩, index, next⟩ => .list ⟨⟨readBackEntries entries⟩, index, next⟩
  | .null => .null
  | .bool b => .bool b
  | .int n => .int n
  | .str s => .str s
  | .object o => .object o

def readBackEntries : List (Key × Value) → List (Key × Value)
  | [] => []
  | (key, v) :: entries => (key, v.readBack) :: readBackEntries entries

end

theorem readBack_list (items : KeyedList Value) :
    (list items).readBack read = .list (items.mapValues (readBack read)) := by
  have hentries : ∀ entries : List (Key × Value),
      readBackEntries read entries = entries.map fun entry => (entry.1, entry.2.readBack read) := by
    intro entries
    induction entries with
    | nil => rfl
    | cons entry entries ih =>
      obtain ⟨key, v⟩ := entry
      rw [readBackEntries, ih, List.map_cons]
  obtain ⟨⟨entries⟩, index, next⟩ := items
  rw [readBack, hentries, KeyedList.mapValues, List.map_toArray]

theorem readBack_readBack (again : Fin Binary64.rankLimit → Fin Binary64.rankLimit) (v : Value) :
    (v.readBack read).readBack again = v.readBack fun rank => again (read rank) := by
  induction v with
  | null | bool | int | str | object => rfl
  | float x => cases x <;> rfl
  | list items ih =>
    rw [readBack_list, readBack_list, readBack_list, KeyedList.mapValues_mapValues, list.injEq]
    exact KeyedList.mapValues_inj.2 ih

/-- A value is read as it was just if each number in it is finite and is read as it was. -/
theorem readBack_eq_self_iff {v : Value} : v.readBack read = v ↔
    ∀ x, v.Contains (.float x) → ∃ negative rank, x = .finite negative rank ∧ read rank = rank := by
  induction v with
  | null | bool | int | str | object =>
    refine iff_of_true rfl ?_
    rintro x ⟨⟩
  | float x =>
    have hself : (∀ y, (float x).Contains (.float y) →
        ∃ negative rank, y = .finite negative rank ∧ read rank = rank) ↔
          ∃ negative rank, x = .finite negative rank ∧ read rank = rank := by
      refine ⟨fun h => h x (.self _), fun h y hy => ?_⟩
      cases hy
      exact h
    rw [hself]
    cases x with
    | nan | infinite => simp [readBack]
    | finite negative rank => simp [readBack]
  | list items ih =>
    rw [readBack_list, list.injEq, KeyedList.mapValues_eq_self_iff]
    constructor
    · rintro h x (_ | ⟨hv, hx⟩)
      exact (ih _ hv).1 (h _ hv) x hx
    · exact fun h v hv => (ih v hv).2 fun x hx => h x (.item hv hx)

/-- JSON shows no difference between NaN or an infinity and null. -/
theorem toJson_readBack_id (v : Value) : (v.readBack id).toJson = v.toJson := by
  induction v with
  | null | bool | int | str | object => rfl
  | float x => cases x <;> rfl
  | list items ih =>
    have hentry : ∀ entry ∈ items.toList, (entry.2.readBack id).toJson = entry.2.toJson :=
      fun entry hentry => ih entry.2 (List.mem_map_of_mem hentry)
    rw [readBack_list, toJson_list, toJson_list, KeyedList.isSequential_mapValues,
      KeyedList.toList_mapValues, List.map_map, List.map_map]
    split
    · rw [Json.array.injEq]
      exact List.map_congr_left hentry
    · rw [Json.object.injEq]
      exact List.map_congr_left fun entry h => Prod.ext rfl (hentry entry h)

/-! ## The text of a portable value -/

variable {n : Nat} {v w : Value}

theorem Portable.readBack_id_eq (h : Portable n v) : v.readBack id = v := by
  induction h with
  | null | bool | int | float | str => rfl
  | list _ _ _ ih => rw [readBack_list, KeyedList.mapValues_eq_self_iff.2 ih]

theorem Portable.readBack (h : Portable n v) : Portable n (v.readBack read) := by
  induction h with
  | null n => exact .null n
  | bool n b => exact .bool n b
  | int n i => exact .int n i
  | float n negative rank => exact .float n negative (read rank)
  | str n s => exact .str n s
  | list hwf hkeys _ ih =>
    rw [readBack_list]
    refine .list (hwf.mapValues _) (by rwa [KeyedList.keys_mapValues]) ?_
    rw [KeyedList.values_mapValues]
    exact List.forall_mem_map.2 ih

/-- The document of a portable value stands for the value, also with other numbers in both. -/
theorem ofJson_mapRanks_toJson (h : Portable n v) :
    ofJson (v.toJson.mapRanks read) = v.readBack read := by
  induction h with
  | null | bool | int | float | str => rfl
  | @list n items hwf hkeys _ ih =>
    have hwf' := hwf.mapValues (Value.readBack read)
    rw [toJson_list, readBack_list]
    split
    next hseq =>
      have hvalues : ofItems ((items.toList.map fun entry => entry.2.toJson).map
          (Json.mapRanks read)) = (items.mapValues (Value.readBack read)).values := by
        rw [ofItems_eq_map, List.map_map, List.map_map, KeyedList.values_mapValues, KeyedList.values,
          List.map_map]
        exact List.map_congr_left fun entry hentry => ih entry.2 (List.mem_map_of_mem hentry)
      rw [Json.mapRanks, Json.mapRanksItems_eq_map, ofJson, hvalues,
        hwf'.ofList_values (by rwa [KeyedList.isSequential_mapValues])]
    next =>
      have hentries : ofMembers ((items.toList.map fun entry =>
          (entry.1.text, entry.2.toJson)).map fun m => (m.1, m.2.mapRanks read)) =
            (items.mapValues (Value.readBack read)).toList := by
        rw [ofMembers_eq_map, List.map_map, List.map_map, KeyedList.toList_mapValues]
        refine List.map_congr_left fun entry hentry => ?_
        have hkey := Key.ofText_text_iff.2 (hkeys entry.1 (List.mem_map_of_mem hentry))
        have hvalue := ih entry.2 (List.mem_map_of_mem hentry)
        exact Prod.ext hkey hvalue
      rw [Json.mapRanks, Json.mapRanksMembers_eq_map, ofJson, hentries, hwf'.ofEntries_toList]

theorem depth_toJson_le (h : Portable n v) : v.toJson.depth ≤ n := by
  induction h with
  | null | bool | int | float | str => exact Nat.zero_le _
  | @list n items _ _ _ ih =>
    have hentry : ∀ entry ∈ items.toList, entry.2.toJson.depth ≤ n := fun entry hentry =>
      ih entry.2 (List.mem_map_of_mem hentry)
    rw [toJson_list]
    split
    · rw [Json.depth, Nat.succ_le_succ_iff, Json.itemsDepth_le_iff]
      exact List.forall_mem_map.2 hentry
    · rw [Json.depth, Nat.succ_le_succ_iff, Json.membersDepth_le_iff]
      exact List.forall_mem_map.2 hentry

end ReadBack

section JsonText

variable {v w : Value}

theorem ofJsonText?_jsonText (h : Portable Json.maxDepth (v.readBack id)) :
    ofJsonText? v.jsonText = some (v.readBack Json.rereadRank) := by
  have hread := ofJson_mapRanks_toJson Json.rereadRank h
  have hdepth := depth_toJson_le h
  rw [toJson_readBack_id] at hread hdepth
  rw [ofJsonText?, jsonText, Json.parse?_render hdepth, Option.map_some, hread, readBack_readBack]
  rfl

theorem Portable.ofJsonText?_jsonText (h : Portable Json.maxDepth v) :
    ofJsonText? v.jsonText = some (v.readBack Json.rereadRank) :=
  Value.ofJsonText?_jsonText (h.readBack id)

/-- Values of one text differ at most in what JSON has no form for. -/
theorem readBack_id_eq_of_jsonText_eq (hv : Portable Json.maxDepth (v.readBack id))
    (hw : Portable Json.maxDepth (w.readBack id)) (h : v.jsonText = w.jsonText) :
    v.readBack id = w.readBack id := by
  have hdepth := depth_toJson_le hv
  have hdepth' := depth_toJson_le hw
  rw [toJson_readBack_id] at hdepth hdepth'
  have hread := ofJson_mapRanks_toJson id hv
  have hread' := ofJson_mapRanks_toJson id hw
  rw [toJson_readBack_id, readBack_readBack] at hread hread'
  rw [Json.render_inj hdepth hdepth' h] at hread
  exact hread.symm.trans hread'

end JsonText

/-! ## A document stands for a portable value -/

theorem portable_ofJson {j : Json} {n : Nat} (h : j.depth ≤ n) : Portable n (ofJson j) := by
  induction j generalizing n with
  | null | bool | int | float | str => constructor
  | array items ih =>
    rw [Json.depth] at h
    obtain ⟨k, rfl⟩ := Nat.exists_eq_add_of_lt (Nat.lt_of_succ_le h)
    refine portable_ofList fun v hv => ?_
    rw [ofItems_eq_map] at hv
    obtain ⟨j, hj, rfl⟩ := List.mem_map.1 hv
    have hdepth := Json.itemsDepth_le_iff.1 (Nat.le_refl _) j hj
    exact ih j hj (Nat.le_trans hdepth (Nat.le_add_right ..))
  | object members ih =>
    rw [Json.depth] at h
    obtain ⟨k, rfl⟩ := Nat.exists_eq_add_of_lt (Nat.lt_of_succ_le h)
    refine portable_ofEntries fun entry hentry => ?_
    rw [ofMembers_eq_map] at hentry
    obtain ⟨m, hm, rfl⟩ := List.mem_map.1 hentry
    have hdepth := Json.membersDepth_le_iff.1 (Nat.le_refl _) m hm
    exact ⟨Key.isNormal_ofText m.1, ih m hm (Nat.le_trans hdepth (Nat.le_add_right ..))⟩

theorem portable_of_ofJsonText? {text : String} {v : Value} (h : ofJsonText? text = some v) :
    Portable Json.maxDepth v := by
  obtain ⟨j, hj, rfl⟩ := Option.map_eq_some_iff.1 h
  exact portable_ofJson (Json.depth_of_parse? hj)

theorem Portable.isFinite {n : Nat} {v : Value} (h : Portable n v) {x : Binary64}
    (hx : v.Contains (.float x)) : x.isFinite = true := by
  obtain ⟨negative, rank, rfl, -⟩ := (readBack_eq_self_iff id).1 h.readBack_id_eq x hx
  rfl

/-- The text of a portable value is read as the value, with each of its numbers as it is read from its
written form, and so is the text of each value of a JSON text, which is portable. The value itself
comes back if its numbers do, and those do whose digits fit in 53 bits with a small power of ten. -/
theorem jsonText_reads_back :
    (∀ v : Value, Portable 127 v → ofJsonText? v.jsonText = some (v.readBack Json.rereadRank)) ∧
    (∀ (text : String) (v : Value), ofJsonText? text = some v →
      Portable 127 v ∧ ofJsonText? v.jsonText = some (v.readBack Json.rereadRank)) ∧
    (∀ v : Value, Portable 127 v → (v.readBack Json.rereadRank = v ↔
      ∀ negative rank, v.Contains (.float (.finite negative rank)) → Json.rereadRank rank = rank)) ∧
    ∀ rank : Fin Binary64.rankLimit,
      Json.IsExact (Json.readDecimal rank) → Json.rereadRank rank = rank := by
  refine ⟨fun v h => h.ofJsonText?_jsonText, fun text v h => ?_, fun v h => ?_,
    fun rank => Json.rereadRank_eq_of_isExact⟩
  · exact ⟨portable_of_ofJsonText? h, (portable_of_ofJsonText? h).ofJsonText?_jsonText⟩
  · rw [readBack_eq_self_iff]
    constructor
    · intro hall negative rank hrank
      obtain ⟨_, _, he, hself⟩ := hall _ hrank
      cases he
      exact hself
    · intro hall x hx
      cases x with
      | finite negative rank => exact ⟨negative, rank, rfl, hall negative rank hx⟩
      | nan | infinite => cases h.isFinite hx

/-- In a list with keys of both kinds the negative zero comes back; a list is read from an object with
names that are indices. -/
theorem jsonText_reads_back_mixed_keys :
    let zero : Fin Binary64.rankLimit := ⟨0, by decide⟩
    let v : Value := .list (.ofEntries [(.index (-1), .float (.finite true zero)),
      (.name "007", .str "\x00\"\\é")])
    (Portable 127 v ∧ ofJsonText? v.jsonText = some (v.readBack Json.rereadRank)) ∧
    (∃ w, ofJsonText? "\x7b\"1\":[\x7b\x7d],\"0\":-0.0,\"1\":1e3\x7d" = some w ∧
      Portable 127 w ∧ ofJsonText? w.jsonText = some (w.readBack Json.rereadRank)) ∧
    (v.readBack Json.rereadRank = v ↔ ∀ negative rank, v.Contains (.float (.finite negative rank)) →
      Json.rereadRank rank = rank) ∧
    Json.IsExact (Json.readDecimal zero) ∧ Json.rereadRank zero = zero := by
  intro zero v
  obtain ⟨hwritten, hread, hsame, hexact⟩ := jsonText_reads_back
  have hname : (Key.name "007").IsNormal := Key.ofText_text_iff.1 (by decide +kernel)
  have hv : Portable 127 v := portable_ofEntries (List.forall_mem_cons.2
    ⟨⟨trivial, .float _ _ _⟩, List.forall_mem_singleton.2 ⟨hname, .str _ _⟩⟩)
  have htokens : Json.tokens? "\x7b\"1\":[\x7b\x7d],\"0\":-0.0,\"1\":1e3\x7d".toList =
      some [.openObject, .str "1", .colon, .openArray, .openObject, .closeObject, .closeArray,
        .comma, .str "0", .colon, .float true ⟨0, by decide⟩, .comma, .str "1", .colon,
        .float false ⟨4652007308841189376, by decide⟩, .closeObject] := by decide +kernel
  have hw : ofJsonText? "\x7b\"1\":[\x7b\x7d],\"0\":-0.0,\"1\":1e3\x7d" =
      some (.list (.ofEntries [(.ofText "1", .list (.ofList [.list (.ofEntries [])])),
        (.ofText "0", .float (.zero true)),
        (.ofText "1", .float (.finite false ⟨4652007308841189376, by decide⟩))])) := by
    rw [ofJsonText?, Json.parse?, htokens]
    rfl
  have hzero : Json.IsExact (Json.readDecimal zero) := by decide
  exact ⟨⟨hv, hwritten v hv⟩, ⟨_, hw, hread _ _ hw⟩, hsame v hv, hzero, hexact zero hzero⟩

/-- Not all portable values come back, nor do all values of a JSON text: the products that are read
for these numbers are neighbours of them. -/
theorem jsonText_loses_digits :
    (¬ ∀ v : Value, Portable 127 v → ofJsonText? v.jsonText = some v) ∧
    ¬ ∀ (text : String) (v : Value), ofJsonText? text = some v → ofJsonText? v.jsonText = some v := by
  have hread : ∀ rank : Fin Binary64.rankLimit,
      ofJsonText? (float (.finite false rank)).jsonText = some (float (.finite false rank)) →
        Json.rereadRank rank = rank := by
    intro rank h
    rw [ofJsonText?_jsonText (.float _ _ _), Option.some.injEq] at h
    simpa [readBack] using h
  constructor
  · intro h
    have hself := hread ⟨4632409357216853856, by decide⟩ (h _ (.float _ _ _))
    exact absurd hself (by decide +kernel)
  · intro h
    have htokens : Json.tokens? "94.52706955539223038".toList =
        some [.float false ⟨4636352168112277535, by decide⟩] := by decide +kernel
    have hv : ofJsonText? "94.52706955539223038" =
        some (.float (.finite false ⟨4636352168112277535, by decide⟩)) := by
      rw [ofJsonText?, Json.parse?, htokens]
      rfl
    have hself := hread ⟨4636352168112277535, by decide⟩ (h _ _ hv)
    exact absurd hself (by decide +kernel)

end Value

end LooseTypes
