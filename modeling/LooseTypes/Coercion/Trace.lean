import LooseTypes.Spec.Basic

/-!
# Traced results

A computation gives its outcome together with the events on the way to it, in order. Events after a
failure do not happen. `outcome_bind` and `events_bind` are the two sides of a step.
-/

namespace LooseTypes

/-- Something worth noting in a log. -/
inductive Event where
  /-- A value of some kind is about to be coerced by a spec. -/
  | coercing (spec : String) (input : Kind)
  /-- A spec text names no type. -/
  | rejected (error : SpecError)
  /-- A data file is about to be read. -/
  | readingFile (path : String)
  deriving DecidableEq, Repr

/-- An outcome and the events on the way to it. -/
structure Traced (ε α : Type) where
  events : List Event
  outcome : Except ε α

namespace Traced

variable {ε ε' α β : Type}

def andThen (x : Traced ε α) (f : α → Traced ε β) : Traced ε β :=
  match x.outcome with
  | .error e => ⟨x.events, .error e⟩
  | .ok a =>
    let y := f a
    ⟨x.events ++ y.events, y.outcome⟩

instance : Monad (Traced ε) where
  pure a := ⟨[], .ok a⟩
  bind := andThen

def emit (event : Event) : Traced ε Unit := ⟨[event], .ok ()⟩

def ofExcept (outcome : Except ε α) : Traced ε α := ⟨[], outcome⟩

/-- The outcome of reading a spec. A text that names no type is noted. -/
def ofSpec (outcome : Except SpecError α) : Traced SpecError α :=
  match outcome with
  | .error e@⟨.unknownType _, _⟩ => ⟨[.rejected e], .error e⟩
  | _ => ⟨[], outcome⟩

def mapError (f : ε → ε') (x : Traced ε α) : Traced ε' α := ⟨x.events, x.outcome.mapError f⟩

@[simp] theorem outcome_pure (a : α) : (pure a : Traced ε α).outcome = .ok a := rfl

@[simp] theorem events_pure (a : α) : (pure a : Traced ε α).events = [] := rfl

@[simp] theorem outcome_emit (event : Event) : (emit event : Traced ε Unit).outcome = .ok () := rfl

@[simp] theorem outcome_ofExcept (r : Except ε α) : (ofExcept r).outcome = r := rfl

@[simp] theorem outcome_ofSpec (r : Except SpecError α) : (ofSpec r).outcome = r := by
  unfold ofSpec
  split <;> rfl

theorem outcome_bind (x : Traced ε α) (f : α → Traced ε β) :
    (x >>= f).outcome = x.outcome >>= fun a => (f a).outcome := by
  change (x.andThen f).outcome = _
  unfold andThen
  cases x.outcome <;> rfl

theorem events_bind (x : Traced ε α) (f : α → Traced ε β) :
    (x >>= f).events = x.events ++ (x.outcome.toOption.map (f · |>.events)).getD [] := by
  change (x.andThen f).events = _
  unfold andThen
  cases x.outcome <;> simp [Except.toOption]

instance : LawfulMonad (Traced ε) := LawfulMonad.mk' (Traced ε)
  (fun ⟨events, outcome⟩ => by
    change andThen _ _ = _
    cases outcome <;> simp [andThen])
  (fun a f => by
    change andThen _ _ = _
    simp [andThen, pure])
  (fun x f g => by
    change andThen (andThen _ _) _ = andThen _ fun a => andThen _ _
    unfold andThen
    cases x.outcome with
    | error => rfl
    | ok a => cases h : (f a).outcome <;> simp [h])

end Traced

end LooseTypes
