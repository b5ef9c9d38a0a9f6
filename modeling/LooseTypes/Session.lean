import LooseTypes.Coercion.Basic

/-!
# Sessions

Named registers that hold values. A change to the list in one register leaves every other register as
it is. Texts, lists and objects can be told apart even if they are equal: copying a register, and
coercing a list to `array` without an element spec, give the same text, list or object again, while
everything else makes a new one.
-/

namespace LooseTypes

/-- A value, and which text or list it is. -/
structure Register where
  value : Value
  allocation : Nat

/-- Named registers. The first register of a name counts. -/
structure Session where
  registers : List (String × Register)
  /-- The next new text or list. -/
  fresh : Nat

/-- Why the elements of a list were not all coerced. -/
inductive MapFailure where
  /-- A value of the kind at which to stop. -/
  | stopped (v : Value)
  | spec (error : SpecError)

namespace Session

def empty : Session := ⟨[], 0⟩

/-- The register of a name; one that was never set holds null. -/
def register (s : Session) (name : String) : Register := (s.registers.lookup name).getD ⟨.null, 0⟩

def value (s : Session) (name : String) : Value := (s.register name).value

def set (s : Session) (name : String) (v : Value) : Session :=
  ⟨(name, ⟨v, s.fresh⟩) :: s.registers, s.fresh + 1⟩

def copy (s : Session) (source target : String) : Session :=
  { s with registers := (target, s.register source) :: s.registers }

def equal (s : Session) (a b : String) : Bool := (s.value a).equal (s.value b)

/-- Whether two registers hold the same text, list or object. -/
def same (s : Session) (a b : String) : Bool :=
  match s.value a, s.value b with
  | .str _, .str _ | .list _, .list _ => (s.register a).allocation == (s.register b).allocation
  | .object o, .object p => o.identity == p.identity
  | _, _ => false

/-- Whether coercing a value by a spec gives the value itself. -/
def keepsAllocation (v : Value) (spec : String) : Bool :=
  match v, Spec.parse spec with
  | .list _, .ok ⟨.array, []⟩ => true
  | _, _ => false

/-- Coerces the value in one register into another; a failure changes nothing. -/
def coerce (s : Session) (source spec target : String) : Except SpecError Value × Session :=
  let v := s.value source
  match (v.coerce spec).outcome with
  | .error e => (.error e, s)
  | .ok result =>
    (.ok result, if keepsAllocation v spec then s.copy source target else s.set target result)

/-- Coerces the fields of the value in one register into another; a failure changes nothing. -/
def coerceFields (s : Session) (source : String) (specs : List (Key × String)) (target : String) :
    Except SpecError (KeyedList Value) × Session :=
  match ((s.value source).coerceFields specs).outcome with
  | .error e => (.error e, s)
  | .ok result => (.ok result, s.set target (.list result))

def push (s : Session) (name : String) (items : KeyedList Value) (v : Value) :
    KeyedList Value × Session :=
  let result := items.push v
  (result, s.set name (.list result))

def insert (s : Session) (name : String) (items : KeyedList Value) (key : Key) (v : Value) :
    Option Value × KeyedList Value × Session :=
  let (old, result) := items.getThenInsert? key v
  (old, result, s.set name (.list result))

/-- Coerces the elements of a list into a register, up to the first value of the kind at which to
stop. Gives the number of elements that were looked at. -/
def mapValues (s : Session) (items : KeyedList Value) (spec : String) (stop : Option Kind)
    (target : String) : Nat × Except MapFailure (KeyedList Value) × Session :=
  let (outcome, seen) := ((items.mapValuesM visit).run.run 0).run
  match outcome with
  | .error e => (seen, .error e, s)
  | .ok result => (seen, .ok result, s.set target (.list result))
where
  visit (v : Value) : ExceptT MapFailure (StateM Nat) Value := do
    modify (· + 1)
    if some v.kind = stop then throw (.stopped v)
    match (v.coerce spec).outcome with
    | .ok result => return result
    | .error e => throw (.spec e)

end Session

end LooseTypes
