import LooseTypes.Key
import Std.Data.HashMap

/-!
# Keyed lists

Entries under distinct keys, in the order in which the keys first came. Inserting under a present
key replaces the value in place; a new key goes to the end. `push` appends under the next free
index. A hash index beside the entries finds the position of a key, and `next` is the key of the
next `push`; `WellFormed` says that both follow from the entries.
-/

namespace LooseTypes

/-- An ordered list of values under keys. -/
structure KeyedList (α : Type) where
  entries : Array (Key × α)
  /-- The position of each key. -/
  index : Std.HashMap Key Nat
  /-- The index under which the next value is appended. -/
  next : Int64

namespace KeyedList

variable {α β : Type}

def empty : KeyedList α := ⟨#[], ∅, 0⟩

instance : Inhabited (KeyedList α) := ⟨empty⟩

def toList (l : KeyedList α) : List (Key × α) := l.entries.toList

def size (l : KeyedList α) : Nat := l.entries.size

def isEmpty (l : KeyedList α) : Bool := l.entries.isEmpty

def keys (l : KeyedList α) : List Key := l.toList.map (·.1)

def values (l : KeyedList α) : List α := l.toList.map (·.2)

def get? (l : KeyedList α) (key : Key) : Option α := do
  let position ← l.index[key]?
  let entry ← l.entries[position]?
  return entry.2

/-- Puts a value under a key, and gives the value that it replaces. -/
def getThenInsert? (l : KeyedList α) (key : Key) (value : α) : Option α × KeyedList α :=
  match l.index[key]? with
  | some position =>
    (l.entries[position]?.map (·.2), { l with entries := l.entries.setIfInBounds position (key, value) })
  | none =>
    let position := l.entries.size
    (none, ⟨l.entries.push (key, value), l.index.insert key position, key.nextAfter l.next⟩)

def insert (l : KeyedList α) (key : Key) (value : α) : KeyedList α := (l.getThenInsert? key value).2

/-- Puts a value under the next index. -/
def push (l : KeyedList α) (value : α) : KeyedList α := l.insert (.index l.next) value

/-- The list of some values under the indices from zero. -/
def ofList (values : List α) : KeyedList α := values.foldl push empty

/-- The list of some entries, inserted one after the other. -/
def ofEntries (entries : List (Key × α)) : KeyedList α :=
  entries.foldl (fun l entry => l.insert entry.1 entry.2) empty

/-- Whether the keys are the indices from zero, in order. -/
def isSequential (l : KeyedList α) : Bool :=
  l.keys.zipIdx.all fun (key, position) => key.isPosition position

/-- Runs `f` on the values in order, and keeps the keys. -/
def mapValuesM {m : Type → Type} [Monad m] (f : α → m β) (l : KeyedList α) : m (KeyedList β) := do
  let entries ← l.entries.mapM fun entry => return (entry.1, ← f entry.2)
  return ⟨entries, l.index, l.next⟩

/-- The index that follows from a sequence of keys: each one's first position. -/
def indexOf (keys : List Key) : Std.HashMap Key Nat :=
  keys.zipIdx.foldl (fun index (key, position) => index.insert key position) ∅

def nextOf (keys : List Key) : Int64 := keys.foldl Key.nextAfter 0

/-- The keys are distinct, and the index and the next key are those of the keys. -/
structure WellFormed (l : KeyedList α) : Prop where
  nodup : l.keys.Nodup
  index_eq : l.index = indexOf l.keys
  next_eq : l.next = nextOf l.keys

theorem wellFormed_empty : (empty : KeyedList α).WellFormed := ⟨by simp [keys, toList, empty], rfl, rfl⟩

end KeyedList

end LooseTypes
