import Mathlib.Data.List.TakeWhile

/-!
# The bytes of a text

Positions of a text are counted in bytes. `At text pos before after` says that a position is the one
between the characters `before` and the characters `after`; there the text can be cut
(`At.slice?_eq`). Bytes and characters of a kind that has ASCII members only (`SameKind`) are
recognised by one another: a character of any other kind begins with a byte that is none of
ASCII. So stepping over bytes of the kind stops between characters, whatever these are (`At.skip`).
-/

namespace LooseTypes

def utf8Bytes (text : String) : List UInt8 := text.toUTF8.data.toList

/-- Steps over the bytes of a kind. -/
def skipBytes (kind : UInt8 → Bool) (bytes : ByteArray) (pos : Nat) : Nat :=
  if h : pos < bytes.size then
    if kind bytes[pos] then skipBytes kind bytes (pos + 1) else pos
  else pos
termination_by bytes.size - pos

/-- The text between two byte positions; there is none unless both are between characters, in
this order. -/
def slice? (text : String) (start stop : Nat) : Option String := do
  let first ← text.pos? ⟨start⟩
  let last ← text.pos? ⟨stop⟩
  if start ≤ stop then some (text.extract first last) else none

def leadByte (c : Char) : UInt8 := (String.utf8EncodeChar c).headD 0

theorem skipBytes_eq (kind : UInt8 → Bool) (bytes : ByteArray) (pos : Nat) :
    skipBytes kind bytes pos =
      if bytes[pos]?.any kind then skipBytes kind bytes (pos + 1) else pos := by
  conv => lhs; unfold skipBytes
  by_cases h : pos < bytes.size
  · rw [dif_pos h, getElem?_pos bytes pos h]
    rfl
  · rw [dif_neg h, getElem?_neg bytes pos h]
    rfl

theorem isEmpty_ofList (cs : List Char) : (String.ofList cs).isEmpty = cs.isEmpty := by
  rw [Bool.eq_iff_iff, String.isEmpty_iff, List.isEmpty_iff, String.ofList_eq_empty_iff]

/-! ## Bytes of characters -/

theorem utf8EncodeChar_of_ascii {c : Char} (h : c.toNat < 128) :
    String.utf8EncodeChar c = [c.toUInt8] := by
  refine String.utf8EncodeChar_eq_singleton ?_
  rw [Char.utf8Size_eq_one_iff, UInt32.le_iff_toNat_le]
  exact Nat.le_of_lt_succ h

theorem exists_utf8EncodeChar (c : Char) : ∃ rest, String.utf8EncodeChar c = leadByte c :: rest := by
  unfold leadByte
  cases h : String.utf8EncodeChar c with
  | nil => exact absurd h String.utf8EncodeChar_ne_nil
  | cons b rest => exact ⟨rest, rfl⟩

theorem toList_utf8Encode (cs : List Char) :
    cs.utf8Encode.data.toList = cs.flatMap String.utf8EncodeChar := by
  simp [List.utf8Encode]

theorem utf8Bytes_ofList (cs : List Char) :
    utf8Bytes (String.ofList cs) = cs.flatMap String.utf8EncodeChar := by
  rw [utf8Bytes, String.toUTF8_eq_toByteArray, String.toByteArray_ofList, toList_utf8Encode]

theorem getElem?_toList (bytes : ByteArray) (i : Nat) : bytes[i]? = bytes.data.toList[i]? := by
  by_cases h : i < bytes.size
  · simp [getElem?_pos bytes i h, ByteArray.getElem_eq_getElem_data]
  · rw [getElem?_neg bytes i h, List.getElem?_eq_none (by simpa using h)]

/-- A character beyond ASCII begins with a byte beyond ASCII. -/
theorem le_leadByte {c : Char} (h : 128 ≤ c.toNat) : 128 ≤ (leadByte c).toNat := by
  have hor : ∀ a b : UInt8, 128 ≤ b.toNat → 128 ≤ (a ||| b).toNat := by
    intro a b hb
    rw [UInt8.toNat_or]
    exact le_trans hb Nat.right_le_or
  have hsize : c.utf8Size ≠ 1 := by
    rw [Ne, Char.utf8Size_eq_one_iff, UInt32.le_iff_toNat_le]
    exact Nat.not_le_of_lt h
  unfold leadByte
  rcases Char.utf8Size_eq c with hc | hc | hc | hc
  · exact absurd hc hsize
  · rw [String.utf8EncodeChar_eq_cons_cons hc]
    exact hor _ _ (by decide)
  · rw [String.utf8EncodeChar_eq_cons_cons_cons hc]
    exact hor _ _ (by decide)
  · rw [String.utf8EncodeChar_eq_cons_cons_cons_cons hc]
    exact hor _ _ (by decide)

/-- A kind of bytes and a kind of characters, of ASCII only and the same there. -/
structure SameKind (kind : UInt8 → Bool) (kindOf : Char → Bool) : Prop where
  ascii : ∀ c : Char, c.toNat < 128 → kind c.toUInt8 = kindOf c
  byte_lt : ∀ b, kind b = true → b.toNat < 128
  char_lt : ∀ c, kindOf c = true → c.toNat < 128

/-- What all characters of ASCII have in common can be checked one by one. -/
theorem forall_ascii {P : Char → Prop} (h : ∀ n < 128, P (Char.ofNat n)) (c : Char)
    (hc : c.toNat < 128) : P c := by
  have hn := h c.toNat hc
  rwa [Char.ofNat_toNat] at hn

section SameKind

variable {kind : UInt8 → Bool} {kindOf : Char → Bool}

theorem SameKind.leadByte_eq (h : SameKind kind kindOf) (c : Char) :
    kind (leadByte c) = kindOf c := by
  by_cases hc : c.toNat < 128
  · rw [leadByte, utf8EncodeChar_of_ascii hc, List.headD_cons, h.ascii c hc]
  · have hbyte := le_leadByte (Nat.le_of_not_lt hc)
    have hkind : kind (leadByte c) = false :=
      Bool.eq_false_iff.2 fun hb => absurd (h.byte_lt _ hb) (Nat.not_lt.2 hbyte)
    rw [hkind, Bool.eq_false_iff.2 fun hb => hc (h.char_lt c hb)]

/-- Each character of the kind is one byte. -/
theorem SameKind.utf8Bytes_ofList (h : SameKind kind kindOf) {cs : List Char}
    (hcs : ∀ c ∈ cs, kindOf c = true) : utf8Bytes (String.ofList cs) = cs.map Char.toUInt8 := by
  rw [LooseTypes.utf8Bytes_ofList]
  induction cs with
  | nil => rfl
  | cons c cs ih =>
    rw [List.flatMap_cons, utf8EncodeChar_of_ascii (h.char_lt c (hcs c List.mem_cons_self)),
      ih fun d hd => hcs d (List.mem_cons_of_mem c hd), List.singleton_append, List.map_cons]

theorem SameKind.size_utf8Encode (h : SameKind kind kindOf) {cs : List Char}
    (hcs : ∀ c ∈ cs, kindOf c = true) : cs.utf8Encode.size = cs.length := by
  have hbytes := congrArg List.length (h.utf8Bytes_ofList hcs)
  rwa [List.length_map, utf8Bytes, Array.length_toList, ByteArray.size_data,
    String.toUTF8_eq_toByteArray, String.toByteArray_ofList] at hbytes

/-- Bytes are all of the kind just if the characters are. -/
theorem SameKind.all_utf8Bytes (h : SameKind kind kindOf) (cs : List Char) :
    (utf8Bytes (String.ofList cs)).all kind = cs.all kindOf := by
  have hchar : ∀ c, (String.utf8EncodeChar c).all kind = kindOf c := by
    intro c
    by_cases hc : c.toNat < 128
    · rw [utf8EncodeChar_of_ascii hc, List.all_cons, List.all_nil, Bool.and_true, h.ascii c hc]
    · have hlead := h.leadByte_eq c
      obtain ⟨rest, hrest⟩ := exists_utf8EncodeChar c
      have hkind : kindOf c = false := Bool.eq_false_iff.2 fun hb => hc (h.char_lt c hb)
      rw [hrest, List.all_cons, hlead, hkind, Bool.false_and]
  rw [LooseTypes.utf8Bytes_ofList, List.all_flatMap]
  simp only [hchar]

theorem toNat_toUInt8 {c : Char} (h : c.toNat < 128) : c.toUInt8.toNat = c.toNat :=
  Nat.mod_eq_of_lt (Nat.lt_trans h (by decide))

/-- A single character of ASCII. -/
theorem sameKind_beq {c : Char} (h : c.toNat < 128) : SameKind (· == c.toUInt8) (· == c) where
  ascii d hd := by
    rw [Bool.eq_iff_iff, beq_iff_eq, beq_iff_eq, ← UInt8.toNat_inj, toNat_toUInt8 h,
      toNat_toUInt8 hd, Char.toNat_inj]
  byte_lt b hb := by
    rw [beq_iff_eq.1 hb, toNat_toUInt8 h]
    exact h
  char_lt d hd := by
    rw [beq_iff_eq.1 hd]
    exact h

end SameKind

/-! ## Positions -/

/-- The byte position is behind the characters `before`, and the characters `after` are behind it. -/
structure At (text : String) (pos : Nat) (before after : List Char) : Prop where
  toList_eq : text.toList = before ++ after
  pos_eq : pos = before.utf8Encode.size

section At

variable {text : String} {pos start : Nat} {before mid after : List Char}
  {kind : UInt8 → Bool} {kindOf : Char → Bool}

theorem at_zero (text : String) : At text 0 [] text.toList := ⟨rfl, rfl⟩

theorem At.toUTF8_eq (h : At text pos before after) :
    text.toUTF8 = before.utf8Encode ++ after.utf8Encode := by
  rw [← String.ofList_toList (s := text), h.toList_eq, String.toUTF8_eq_toByteArray,
    String.toByteArray_ofList, List.utf8Encode_append]

/-- The byte at a position is the first one of the next character. -/
theorem At.getElem?_eq (h : At text pos before after) :
    text.toUTF8[pos]? = after.head?.map leadByte := by
  rw [h.toUTF8_eq, h.pos_eq, getElem?_toList, ByteArray.toList_data_append,
    toList_utf8Encode, toList_utf8Encode]
  have hlength : before.utf8Encode.size = (before.flatMap String.utf8EncodeChar).length := by
    rw [← toList_utf8Encode, Array.length_toList, ByteArray.size_data]
  rw [hlength, List.getElem?_append_right (Nat.le_refl _), Nat.sub_self]
  cases after with
  | nil => rfl
  | cons c rest =>
    obtain ⟨bytes, hbytes⟩ := exists_utf8EncodeChar c
    rw [List.flatMap_cons, hbytes]
    rfl

theorem At.advance (h : At text pos before (mid ++ after)) :
    At text (pos + mid.utf8Encode.size) (before ++ mid) after where
  toList_eq := by rw [h.toList_eq, List.append_assoc]
  pos_eq := by rw [h.pos_eq, List.utf8Encode_append, ByteArray.size_append]

/-- Stepping over the bytes of a kind is stepping over the characters of the kind. -/
theorem At.skip (hkind : SameKind kind kindOf) (h : At text pos before after) :
    At text (skipBytes kind text.toUTF8 pos) (before ++ after.takeWhile kindOf)
      (after.dropWhile kindOf) := by
  induction after generalizing pos before with
  | nil =>
    rw [skipBytes_eq, h.getElem?_eq]
    simpa using h
  | cons c rest ih =>
    rw [skipBytes_eq, h.getElem?_eq, List.head?_cons, Option.map_some, Option.any_some,
      hkind.leadByte_eq]
    by_cases hc : kindOf c = true
    · have hone : [c].utf8Encode.size = 1 :=
        hkind.size_utf8Encode (List.forall_mem_singleton.2 hc)
      have hnext : At text (pos + 1) (before ++ [c]) rest := by
        rw [← hone]
        exact At.advance h
      rw [if_pos hc, List.takeWhile_cons_of_pos hc, List.dropWhile_cons_of_pos hc,
        List.append_cons]
      exact ih hnext
    · rw [if_neg hc, List.takeWhile_cons_of_neg hc, List.dropWhile_cons_of_neg hc, List.append_nil]
      exact h

theorem At.isValid (h : At text pos before after) : String.Pos.Raw.IsValid text ⟨pos⟩ := by
  refine String.Pos.Raw.isValid_iff_exists_append.2
    ⟨String.ofList before, String.ofList after, ?_, ?_⟩
  · rw [← String.ofList_append, ← h.toList_eq, String.ofList_toList]
  · rw [h.pos_eq, String.rawEndPos, ← String.size_toByteArray, String.toByteArray_ofList]

theorem pos?_of_isValid {p : String.Pos.Raw} (h : p.IsValid text) : text.pos? p = some ⟨p, h⟩ := by
  unfold String.pos? String.Slice.pos?
  rw [dif_pos]
  · rfl
  · exact String.Pos.Raw.isValidForSlice_eq_true_iff.2 h.toSlice

/-- A text can be cut where characters begin. -/
theorem At.slice?_eq (h : At text start before (mid ++ after))
    (hstop : At text pos (before ++ mid) after) :
    slice? text start pos = some (String.ofList mid) := by
  have hstart := h.pos_eq
  have hsize : pos = before.utf8Encode.size + mid.utf8Encode.size := by
    rw [hstop.pos_eq, List.utf8Encode_append, ByteArray.size_append]
  unfold slice?
  rw [pos?_of_isValid h.isValid, pos?_of_isValid hstop.isValid]
  simp only [Option.bind_eq_bind, Option.bind_some]
  rw [if_pos (by omega), Option.some_inj, ← String.toByteArray_inj, String.toByteArray_extract,
    String.toByteArray_ofList, ← String.toUTF8_eq_toByteArray, h.toUTF8_eq, List.utf8Encode_append]
  show (before.utf8Encode ++ (mid.utf8Encode ++ after.utf8Encode)).extract start pos = _
  rw [hsize, hstart, ← Nat.add_zero before.utf8Encode.size, Nat.add_assoc,
    ByteArray.extract_append_size_add, Nat.zero_add, ByteArray.extract_append_eq_left rfl]

end At

end LooseTypes
