import LooseTypes.Spec.Basic
import Mathlib.Data.List.TakeWhile

/-!
# Reading a spec token by token

A text is a single token, or its first token, a point and the text of the other tokens. Splitting
follows this view, so `Spec.parse` looks up the first token and keeps the tokens of the rest
(`parse_name_append`, `parse_eq_unknownType`), whatever they are.
-/

namespace LooseTypes

def PointFree (text : String) : Prop := '.' ∉ text.toList

instance (text : String) : Decidable (PointFree text) := inferInstanceAs (Decidable (¬_))

/-- The text before the first point; all of it, if there is none. -/
def firstToken (text : String) : String := String.ofList (text.toList.takeWhile (· ≠ '.'))

/-! ## First tokens -/

theorem PointFree.ne {text : String} (h : PointFree text) {c : Char} (hc : c ∈ text.toList) :
    c ≠ '.' := fun he => h (he ▸ hc)

theorem firstToken_of_pointFree {text : String} (h : PointFree text) : firstToken text = text := by
  rw [firstToken, List.takeWhile_eq_self_iff.2 fun c hc => decide_eq_true (h.ne hc),
    String.ofList_toList]

theorem firstToken_append {head : String} (h : PointFree head) (rest : String) :
    firstToken (head ++ "." ++ rest) = head := by
  rw [firstToken, String.append_assoc, String.toList_append,
    List.takeWhile_append_of_pos fun c hc => decide_eq_true (h.ne hc)]
  simp

theorem pointFree_firstToken (text : String) : PointFree (firstToken text) := by
  intro h
  rw [firstToken, String.toList_ofList] at h
  simpa using List.mem_takeWhile_imp h

/-- A text without a second token is its first one; every other text goes on after a point. -/
theorem pointFree_or_append (text : String) :
    PointFree text ∨ ∃ rest, text = firstToken text ++ "." ++ rest := by
  have hsplit := List.takeWhile_append_dropWhile (p := (· ≠ '.')) (l := text.toList)
  cases hd : text.toList.dropWhile (· ≠ '.') with
  | nil =>
    rw [hd, List.append_nil] at hsplit
    refine .inl fun hc => ?_
    rw [← hsplit] at hc
    simpa using List.mem_takeWhile_imp hc
  | cons c rest =>
    obtain rfl : c = '.' := by
      have := List.head?_dropWhile_not (· ≠ '.') text.toList
      rw [hd] at this
      simpa using this
    refine .inr ⟨String.ofList rest, String.toList_inj.1 ?_⟩
    have hjoin : (firstToken text ++ "." ++ String.ofList rest).toList =
        text.toList.takeWhile (· ≠ '.') ++ '.' :: rest := by simp [firstToken]
    rw [hjoin, ← hd, hsplit]

/-! ## Splitting -/

theorem specTokens_of_pointFree {text : String} (h : PointFree text) : specTokens text = [text] := by
  rw [specTokens, List.splitOn_eq_splitOnP,
    List.splitOnP_eq_singleton fun c hc => beq_eq_false_iff_ne.2 (h.ne hc), List.map_singleton,
    String.ofList_toList]

theorem specTokens_append {head : String} (h : PointFree head) (rest : String) :
    specTokens (head ++ "." ++ rest) = head :: specTokens rest := by
  have hlist : (head ++ "." ++ rest).toList = head.toList ++ '.' :: rest.toList := by simp
  have hhead : ∀ c ∈ head.toList, (c == '.') = false := fun c hc => beq_eq_false_iff_ne.2 (h.ne hc)
  rw [specTokens, List.splitOn_eq_splitOnP, hlist,
    List.splitOnP_append_cons_of_forall_mem hhead '.' rfl, List.map_cons, String.ofList_toList,
    specTokens, List.splitOn_eq_splitOnP]

/-- The first token of a text is the first one that splitting gives. -/
theorem specTokens_eq_cons (text : String) :
    ∃ rest, specTokens text = firstToken text :: rest := by
  rcases pointFree_or_append text with h | ⟨rest, h⟩
  · exact ⟨[], by rw [specTokens_of_pointFree h, firstToken_of_pointFree h]⟩
  · refine ⟨specTokens rest, ?_⟩
    conv => lhs; rw [h]
    exact specTokens_append (pointFree_firstToken text) rest

/-! ## Reading -/

namespace Tag

theorem pointFree_name (tag : Tag) : PointFree tag.name := by
  cases tag with
  | array => decide
  | scalar type => cases type <;> decide

theorem array_append (rest : String) : Tag.array.name ++ "." ++ rest = "array." ++ rest := rfl

theorem ofName?_name (tag : Tag) : ofName? tag.name = some tag := ofName?_eq_some_iff.2 rfl

end Tag

namespace Spec

theorem parse_of_specTokens {text : String} (tag : Tag) {rest : List String}
    (h : specTokens text = tag.name :: rest) : parse text = .ok ⟨tag, rest⟩ := by
  simp only [parse, h, Tag.ofName?_name]

theorem parse_name (tag : Tag) : parse tag.name = .ok ⟨tag, []⟩ :=
  parse_of_specTokens tag (specTokens_of_pointFree tag.pointFree_name)

theorem parse_name_append (tag : Tag) (rest : String) :
    parse (tag.name ++ "." ++ rest) = .ok ⟨tag, specTokens rest⟩ :=
  parse_of_specTokens tag (specTokens_append tag.pointFree_name rest)

theorem parse_eq_unknownType {text : String} (h : Tag.ofName? (firstToken text) = none) :
    parse text = .error ⟨.unknownType (firstToken text), some text⟩ := by
  obtain ⟨rest, ht⟩ := specTokens_eq_cons text
  simp only [parse, ht, h]

/-- A text that is read names its type first, and keeps all that follows as modifiers. -/
theorem text_eq_of_ofName? {text : String} {tag : Tag} (h : Tag.ofName? (firstToken text) = some tag) :
    text = tag.name ∨ ∃ rest, text = tag.name ++ "." ++ rest := by
  rw [Tag.ofName?_eq_some_iff] at h
  rcases pointFree_or_append text with hp | ⟨rest, hrest⟩
  · exact .inl (by rw [← h, firstToken_of_pointFree hp])
  · exact .inr ⟨rest, by rw [← h, ← hrest]⟩

end Spec

end LooseTypes
