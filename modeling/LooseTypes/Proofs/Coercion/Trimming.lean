import LooseTypes.Proofs.Coercion.Outcome
import LooseTypes.Proofs.Decimal

/-!
# Trimmed results

A trim leaves what is between the characters that it takes from both ends, and there is one way to
take as many as that (`strips_iff`). More trims do no more than the first one
(`Spec.coerceString_trims`). A text that belongs to the value is cut where it is, and a copy is kept
if nothing was cut off; both have the same text (`SharedText.text_trim`).
-/

namespace LooseTypes

/-! ## The longest ends -/

abbrev trimCharacters : List Char := [' ', '\t', '\n', '\r', '\x00', '\x0b']

/-- All that can be taken from the ends of the text stands on the left and on the right, and all of
it on the left if nothing is left in the middle. -/
structure Strips (text left middle right : List Char) : Prop where
  eq_append : text = left ++ middle ++ right
  left_mem : ∀ c ∈ left, c ∈ trimCharacters
  right_mem : ∀ c ∈ right, c ∈ trimCharacters
  isTrimmedText : IsTrimmedText middle
  right_eq_nil : middle = [] → right = []

theorem isTrimmed_eq_true_iff {c : Char} : isTrimmed c = true ↔ c ∈ trimCharacters := by
  rw [← Bool.not_eq_false, isTrimmed_eq_false_iff, not_not]

theorem IsTrimmedText.head_eq_false {text : List Char} (h : IsTrimmedText text) :
    ∀ c ∈ text.head?, isTrimmed c = false := fun c hc =>
  isTrimmed_eq_false_iff.2 (h c (.inl hc))

theorem IsTrimmedText.last_eq_false {text : List Char} (h : IsTrimmedText text) :
    ∀ c ∈ text.reverse.head?, isTrimmed c = false := fun c hc =>
  isTrimmed_eq_false_iff.2 (h c (.inr (by rwa [List.head?_reverse] at hc)))

namespace Strips

variable {text left middle right : List Char}

/-- Nothing can be taken from the left of what is behind the left end. -/
theorem head_eq_false (h : Strips text left middle right) :
    ∀ c ∈ (middle ++ right).head?, isTrimmed c = false := by
  cases hmiddle : middle with
  | nil =>
    rw [h.right_eq_nil hmiddle]
    exact nofun
  | cons first rest =>
    have := h.isTrimmedText.head_eq_false
    rwa [hmiddle] at this

theorem takeWhile_eq (h : Strips text left middle right) : text.takeWhile isTrimmed = left := by
  rw [h.eq_append, List.append_assoc]
  exact takeWhile_append_of_head (fun c hc => isTrimmed_eq_true_iff.2 (h.left_mem c hc))
    h.head_eq_false

theorem dropWhile_eq (h : Strips text left middle right) :
    text.dropWhile isTrimmed = middle ++ right := by
  rw [h.eq_append, List.append_assoc]
  exact dropWhile_append_of_head (fun c hc => isTrimmed_eq_true_iff.2 (h.left_mem c hc))
    h.head_eq_false

theorem trimmed_eq (h : Strips text left middle right) : trimmed text = middle := by
  have hright : ∀ c ∈ right.reverse, isTrimmed c = true := fun c hc =>
    isTrimmed_eq_true_iff.2 (h.right_mem c (List.mem_reverse.1 hc))
  rw [trimmed, h.dropWhile_eq, List.reverse_append,
    dropWhile_append_of_head hright h.isTrimmedText.last_eq_false, List.reverse_reverse]

/-- Only characters that trimming takes away are missing. -/
theorem filter_eq (h : Strips text left middle right) :
    middle.filter (· ∉ trimCharacters) = text.filter (· ∉ trimCharacters) := by
  have hend : ∀ part : List Char, (∀ c ∈ part, c ∈ trimCharacters) →
      part.filter (· ∉ trimCharacters) = [] := by
    intro part hpart
    rw [List.filter_eq_nil_iff]
    exact fun c hc => by simpa only [decide_eq_true_eq, not_not] using hpart c hc
  rw [h.eq_append, List.filter_append, List.filter_append, hend left h.left_mem,
    hend right h.right_mem, List.nil_append, List.append_nil]

end Strips

/-- Trimming leaves the middle. -/
theorem strips_trimmed (text : List Char) :
    Strips text (text.takeWhile isTrimmed) (trimmed text)
      ((text.dropWhile isTrimmed).rtakeWhile isTrimmed) where
  eq_append := by
    rw [trimmed_eq_rdropWhile, List.append_assoc, List.rdropWhile_append_rtakeWhile,
      List.takeWhile_append_dropWhile]
  left_mem c hc := isTrimmed_eq_true_iff.1 (List.mem_takeWhile_imp hc)
  right_mem c hc := isTrimmed_eq_true_iff.1 (List.mem_rtakeWhile_imp hc)
  isTrimmedText := isTrimmedText_trimmed text
  right_eq_nil h := by
    -- what is behind the left end does not begin with a character that could be taken
    rw [trimmed_eq_rdropWhile, List.rdropWhile_eq_nil_iff] at h
    cases hrest : text.dropWhile isTrimmed with
    | nil => rfl
    | cons first rest =>
      have hfirst := List.head?_dropWhile_not isTrimmed text
      rw [hrest] at hfirst h
      exact absurd (h first List.mem_cons_self) (by simpa using hfirst)

theorem strips_iff {text left middle right : List Char} :
    Strips text left middle right ↔ left = text.takeWhile isTrimmed ∧ middle = trimmed text ∧
      right = (text.dropWhile isTrimmed).rtakeWhile isTrimmed := by
  refine ⟨fun h => ?_, ?_⟩
  · have hmiddle := h.trimmed_eq
    have hright : middle ++ right =
        trimmed text ++ (text.dropWhile isTrimmed).rtakeWhile isTrimmed := by
      rw [trimmed_eq_rdropWhile, List.rdropWhile_append_rtakeWhile, h.dropWhile_eq]
    rw [hmiddle] at hright
    exact ⟨h.takeWhile_eq.symm, hmiddle.symm, List.append_cancel_left hright⟩
  · rintro ⟨rfl, rfl, rfl⟩
    exact strips_trimmed text

/-! ## Texts of a value and copies -/

/-- A text that belongs to the value that is coerced, or a copy. -/
inductive SharedText where
  | borrowed (text : String)
  | owned (text : String)

namespace SharedText

def text : SharedText → String
  | borrowed s => s
  | owned s => s

/-- Trims the text. A copy from which nothing is cut off, which its size in bytes tells, is kept. -/
def trim : SharedText → SharedText
  | borrowed s => .borrowed (String.ofList (trimmed s.toList))
  | owned s =>
    let middle := String.ofList (trimmed s.toList)
    if middle.utf8ByteSize = s.utf8ByteSize then .owned s else .owned middle

def apply (shared : SharedText) : TextModifier → SharedText
  | .trim => shared.trim

theorem eq_of_utf8ByteSize_eq {s left middle right : String} (h : s = left ++ middle ++ right)
    (hsize : middle.utf8ByteSize = s.utf8ByteSize) : middle = s := by
  rw [h, String.utf8ByteSize_append, String.utf8ByteSize_append] at hsize
  have hleft : left = "" := String.utf8ByteSize_eq_zero_iff.1 (by omega)
  have hright : right = "" := String.utf8ByteSize_eq_zero_iff.1 (by omega)
  rw [h, hleft, hright, String.empty_append, String.append_empty]

theorem ofList_trimmed_eq {s : String}
    (hsize : (String.ofList (trimmed s.toList)).utf8ByteSize = s.utf8ByteSize) :
    String.ofList (trimmed s.toList) = s := by
  have hparts := congrArg String.ofList (strips_trimmed s.toList).eq_append
  rw [String.ofList_toList, String.ofList_append, String.ofList_append] at hparts
  exact eq_of_utf8ByteSize_eq hparts hsize

/-- A trim of a copy gives the text that a trim in place gives. -/
theorem text_trim (shared : SharedText) :
    shared.trim.text = String.ofList (trimmed shared.text.toList) := by
  cases shared with
  | borrowed s => rfl
  | owned s =>
    rw [trim]
    split
    next hsize => exact (ofList_trimmed_eq hsize).symm
    next => rfl

theorem text_apply (shared : SharedText) (modifier : TextModifier) :
    Spec.coerceString.apply shared.text.toList modifier = (shared.apply modifier).text.toList := by
  cases modifier
  rw [apply, text_trim, String.toList_ofList]
  rfl

end SharedText

/-- The value as a text: its own if it has one, or a copy. -/
def Value.toSharedText : Value → SharedText
  | .str s => .borrowed s
  | .list _ => .borrowed "Array"
  | .object o => (o.display.map .owned).getD (.borrowed "")
  | .int n => .owned (String.ofList (intText n.toInt))
  | .float x => .owned x.text
  | .bool true => .borrowed "1"
  | .bool false | .null => .borrowed ""

theorem Value.text_toSharedText (v : Value) : v.toSharedText.text = v.toText := by
  cases v with
  | bool b => cases b <;> rfl
  | object o =>
    rw [toSharedText, toText]
    cases o.display <;> rfl
  | _ => rfl

namespace Spec

/-- Coerces to a text without a copy where none is needed. -/
def coerceShared (s : Spec) (v : Value) : Except SpecError String := do
  let modifiers ← s.textModifiers
  return (modifiers.foldl SharedText.apply v.toSharedText).text

theorem coerceShared_eq (s : Spec) (v : Value) : s.coerceShared v = s.coerceString v := by
  have hfold : ∀ modifiers : List TextModifier,
      (modifiers.foldl SharedText.apply v.toSharedText).text =
        String.ofList (modifiers.foldl coerceString.apply v.toText.toList) := by
    intro modifiers
    rw [← v.text_toSharedText, List.foldl_hom (fun shared : SharedText => shared.text.toList)
      SharedText.text_apply, String.ofList_toList]
  simp only [coerceShared, coerceString, hfold]

/-! ## Trims in a row -/

theorem coerceString_plain (v : Value) :
    coerceString ⟨.scalar .string, []⟩ v = .ok v.toText := by
  show Except.ok (String.ofList v.toText.toList) = _
  rw [String.ofList_toList]

theorem coerceString_trims (trims : Nat) (v : Value) :
    coerceString ⟨.scalar .string, List.replicate (trims + 1) "trim"⟩ v =
      .ok (String.ofList (trimmed v.toText.toList)) := by
  rw [coerceString, textModifiers_of_trims rfl, ← foldl_apply_trims trims]
  rfl

end Spec

/-- Any number of trims leaves what is between the longest ends of characters that can be taken away,
and there is one way to split the text so. All other characters stay, also at the ends. Cutting
a text of the value and cutting a copy give the same. -/
theorem trims_strip_longest_ends :
    (∀ (v : Value) (trims : Nat), ∃ (plain trimming : Spec) (text result : String),
      Spec.parse "string" = .ok plain ∧
      Spec.parse ("string" ++ String.join (List.replicate (trims + 1) ".trim")) = .ok trimming ∧
      plain.coerceString v = .ok text ∧ trimming.coerceString v = .ok result ∧
      (∃ left right, ∀ l m r, Strips text.toList l m r ↔ l = left ∧ m = result.toList ∧ r = right) ∧
      result.toList.filter (· ∉ trimCharacters) = text.toList.filter (· ∉ trimCharacters)) ∧
    (∀ (s : Spec) (v : Value), s.coerceShared v = s.coerceString v) ∧
    ∀ text : String, (SharedText.borrowed text).trim.text = (SharedText.owned text).trim.text := by
  refine ⟨fun v trims => ?_, Spec.coerceShared_eq, fun text => ?_⟩
  · refine ⟨_, _, v.toText, String.ofList (trimmed v.toText.toList),
      (Target.scalar (.string 0)).parse_text, (Target.scalar (.string (trims + 1))).parse_text,
      Spec.coerceString_plain v, Spec.coerceString_trims trims v, ?_, ?_⟩
    · rw [String.toList_ofList]
      exact ⟨_, _, fun l m r => strips_iff⟩
    · rw [String.toList_ofList]
      exact (strips_trimmed v.toText.toList).filter_eq
  · rw [SharedText.text_trim, SharedText.text_trim]
    rfl

-- Trimming stops at a form feed and at a no-break space.
example : trimmed "\t\x0c a\x00\xa0 \x0b".toList = "\x0c a\x00\xa0".toList := by decide

end LooseTypes
