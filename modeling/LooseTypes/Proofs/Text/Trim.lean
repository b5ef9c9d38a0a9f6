import LooseTypes.Value.Conversion
import Mathlib.Data.List.DropRight

/-!
# Trimmed texts

A text is trimmed if neither end of it is a character that trimming takes away. `trimmed` makes a
text trimmed and keeps one that is (`isTrimmedText_trimmed`, `trimmed_eq_self_iff`), so a second
trim changes nothing.
-/

namespace LooseTypes

/-- Neither end of the text is a space, a tab, a line feed, a carriage return, NUL or a vertical
tab. -/
def IsTrimmedText (text : List Char) : Prop :=
  ∀ c, text.head? = some c ∨ text.getLast? = some c →
    c ∉ [' ', '\t', '\n', '\r', '\x00', '\x0b']

theorem isTrimmed_eq_false_iff {c : Char} :
    isTrimmed c = false ↔ c ∉ [' ', '\t', '\n', '\r', '\x00', '\x0b'] := by
  simp [isTrimmed, and_assoc]

theorem trimmed_eq_rdropWhile (text : List Char) :
    trimmed text = (text.dropWhile isTrimmed).rdropWhile isTrimmed := rfl

theorem isTrimmedText_trimmed (text : List Char) : IsTrimmedText (trimmed text) := by
  rw [trimmed_eq_rdropWhile]
  intro c hc
  rw [← isTrimmed_eq_false_iff]
  rcases hc with hc | hc
  · -- what is taken from the right leaves the left end alone
    have hhead : (text.dropWhile isTrimmed).head? = some c := by
      obtain ⟨rest, hrest⟩ := List.head?_eq_some_iff.1 hc
      obtain ⟨right, hright⟩ := List.rdropWhile_prefix isTrimmed (text.dropWhile isTrimmed)
      rw [← hright, hrest]
      rfl
    have := List.head?_dropWhile_not isTrimmed text
    rw [hhead] at this
    simpa using this
  · have hne : (text.dropWhile isTrimmed).rdropWhile isTrimmed ≠ [] := by
      rintro he
      rw [he] at hc
      cases hc
    rw [List.getLast?_eq_some_getLast hne] at hc
    have := List.rdropWhile_last_not isTrimmed _ hne
    rw [Option.some.inj hc] at this
    simpa using this

theorem trimmed_eq_self_iff {text : List Char} : trimmed text = text ↔ IsTrimmedText text := by
  refine ⟨fun h => h ▸ isTrimmedText_trimmed text, fun h => ?_⟩
  have hleft : text.dropWhile isTrimmed = text := by
    cases text with
    | nil => rfl
    | cons c rest =>
      have := isTrimmed_eq_false_iff.2 (h c (.inl rfl))
      simp [this]
  rw [trimmed_eq_rdropWhile, hleft, List.rdropWhile_eq_self_iff]
  intro hne
  have := isTrimmed_eq_false_iff.2 (h _ (.inr (List.getLast?_eq_some_getLast hne)))
  simp [this]

theorem trimmed_trimmed (text : List Char) : trimmed (trimmed text) = trimmed text :=
  trimmed_eq_self_iff.2 (isTrimmedText_trimmed text)

end LooseTypes
