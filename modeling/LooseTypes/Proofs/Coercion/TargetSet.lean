import LooseTypes.Proofs.Coercion.Soundness

/-!
# Sets of targets

What a good spec set asks for: one target for the whole value, or one for each of some fields. A
coercion by a spec set succeeds only if there are such targets (`TargetSet.exists_of_coerceBy`), and
then it is the conversion to them (`TargetSet.outcome_coerceBy`), which gives a value of the declared
types (`TargetSet.inhabits_convert`).
-/

namespace LooseTypes

/-- A target for a whole value, or one for each field. -/
inductive TargetSet where
  | single (t : Target)
  | fields (targets : List (Key × Target))

namespace TargetSet

def specs : TargetSet → SpecSet
  | .single t => .single t.text
  | .fields targets => .fields (targetSpecs targets)

def convert : TargetSet → Value → Value
  | .single t, v => t.convert v
  | .fields targets, v => .list (v.convertFields targets)

/-- The value has the declared types: for fields, it has each field once, in the order in which they
first come, and under each a value of the last target for it. -/
inductive Inhabits : TargetSet → Value → Prop where
  | single {t : Target} {v : Value} : t.Inhabits v → Inhabits (.single t) v
  | fields {targets : List (Key × Target)} {items : KeyedList Value} :
    items.keys = (targets.map (·.1)).eraseDups →
    (∀ entry ∈ items.toList, ∃ t,
      targets.reverse.lookup entry.1 = some t ∧ t.Inhabits entry.2) →
    Inhabits (.fields targets) (.list items)

theorem outcome_coerceBy (targets : TargetSet) (v : Value) :
    (v.coerceBy targets.specs).outcome = .ok (targets.convert v) := by
  cases targets with
  | single t => exact v.outcome_coerce_text t
  | fields targets =>
    rw [specs, Value.coerceBy, Traced.outcome_bind_of_ok (v.outcome_coerceFields targets)]
    rfl

theorem exists_of_coerceBy {set : SpecSet} {v r : Value} (h : (v.coerceBy set).outcome = .ok r) :
    ∃ targets : TargetSet, targets.specs = set := by
  cases set with
  | single text =>
    have hok : (v.coerce text).outcome.isOk := by
      rw [Value.coerceBy] at h
      rw [h]
      rfl
    obtain ⟨t, rfl⟩ := Spec.verdict_eq_ok_iff.1 (Value.isOk_outcome_coerce_iff.1 hok)
    exact ⟨.single t, rfl⟩
  | fields specs =>
    obtain ⟨items, hitems, -⟩ := Traced.outcome_bind_eq_ok_iff.1 h
    obtain ⟨targets, rfl⟩ := exists_targetSpecs_eq (Value.verdict_of_coerceFields hitems)
    exact ⟨.fields targets, rfl⟩

theorem convert_convert (targets : TargetSet) (v : Value) :
    targets.convert (targets.convert v) = targets.convert v := by
  cases targets with
  | single t => exact t.convert_convert v
  | fields targets => rw [convert, convert, Value.convertFields_convertFields]

theorem inhabits_convert (targets : TargetSet) (v : Value) :
    targets.Inhabits (targets.convert v) := by
  cases targets with
  | single t => exact .single (t.inhabits_convert v)
  | fields targets =>
    refine .fields (v.keys_convertFields targets) fun entry hentry => ?_
    have hget := (v.wellFormed_convertFields targets).get?_of_mem hentry
    exact Value.inhabits_convertFields hget

end TargetSet

end LooseTypes
