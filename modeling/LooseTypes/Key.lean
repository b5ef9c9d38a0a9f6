import LooseTypes.Decimal

/-!
# Keys of list entries

A key is an index or a name. A text becomes an index exactly if it is the decimal text of a 64-bit
integer, so `7` and `"7"` address the same entry, while `"07"`, `"+7"` and `"-0"` are names.
-/

namespace LooseTypes

inductive Key where
  | index (position : Int64)
  | name (text : String)
  deriving DecidableEq, Hashable, Repr

namespace Key

def ofText (text : String) : Key :=
  match (intOfText? text.toList).bind int64? with
  | some i => .index i
  | none => .name text

def text : Key → String
  | .index i => String.ofList (intText i.toInt)
  | .name s => s

def index? : Key → Option Int64
  | .index i => some i
  | .name _ => none

/-- Whether the key is the index of a position counted from zero. -/
def isPosition : Key → Nat → Bool
  | .index i, n => i.toInt == n
  | .name _, _ => false

/-- The key for the next appended entry once this key is present; `next` is the one before that.
It is beyond every index, except that nothing is beyond the largest one. -/
def nextAfter (next : Int64) : Key → Int64
  | .index i => if next ≤ i then nextInt64 i else next
  | .name _ => next

theorem text_ofText (s : String) : (ofText s).text = s := by
  unfold ofText
  split
  next i h =>
    obtain ⟨n, hn, hi⟩ := Option.bind_eq_some_iff.1 h
    rw [text, int64?_eq_some_iff.1 hi, ← intOfText?_eq_some_iff.1 hn, String.ofList_toList]
  next => rfl

theorem ofText_text_index (i : Int64) : ofText (text (.index i)) = .index i := by
  have h : intOfText? (intText i.toInt) = some i.toInt := intOfText?_eq_some_iff.2 rfl
  simp [ofText, text, h, int64?_eq_some_iff.2 rfl]

end Key

end LooseTypes
