import LooseTypes.Proofs.Coercion.Outcome
import LooseTypes.Proofs.KeyedList.Entries
import Mathlib.Data.List.Perm.Basic

/-!
# What a coercion of fields gives

The fields are coerced in order, each one into the list of those before it
(`Value.outcome_coerceFields_concat`). If all specs are good, the list is built from the value of
each field, converted to the target of its spec (`Value.outcome_coerceFields`), so a key has what
the last spec for it makes of the field (`Value.get?_convertFields`). A list comes out only if all
specs are good (`Value.verdict_of_coerceFields`).
-/

namespace LooseTypes

def targetSpecs (targets : List (Key × Target)) : List (Key × String) :=
  targets.map fun field => (field.1, field.2.text)

theorem exists_targetSpecs_eq {specs : List (Key × String)}
    (h : ∀ field ∈ specs, Spec.verdict field.2 = .ok ()) :
    ∃ targets, targetSpecs targets = specs := by
  induction specs with
  | nil => exact ⟨[], rfl⟩
  | cons field rest ih =>
    obtain ⟨targets, htargets⟩ := ih fun other hother => h other (List.mem_cons_of_mem _ hother)
    obtain ⟨t, ht⟩ := Spec.verdict_eq_ok_iff.1 (h field List.mem_cons_self)
    exact ⟨(field.1, t) :: targets, by rw [← htargets, targetSpecs, List.map_cons, ht, targetSpecs]⟩

theorem map_fst_targetSpecs (targets : List (Key × Target)) :
    (targetSpecs targets).map (·.1) = targets.map (·.1) := by
  rw [targetSpecs, List.map_map]
  rfl

theorem perm_of_targetSpecs {targets targets' : List (Key × Target)}
    (h : (targetSpecs targets).Perm (targetSpecs targets')) : targets.Perm targets' := by
  have hinj : Function.Injective fun field : Key × Target => (field.1, field.2.text) := by
    intro field field' h
    obtain ⟨hkey, htext⟩ := Prod.mk.inj h
    exact Prod.ext hkey (Target.text_inj.1 htext)
  exact (List.map_perm_map_iff hinj).1 h

theorem lookup_reverse_targetSpecs (targets : List (Key × Target)) (key : Key) :
    (targetSpecs targets).reverse.lookup key = (targets.reverse.lookup key).map (·.text) := by
  rw [targetSpecs, ← List.map_reverse]
  exact lookup_map (fun _ t => t.text) targets.reverse key

namespace Value

/-- The value of each field, made what its target asks for. -/
def convertFields (v : Value) (targets : List (Key × Target)) : KeyedList Value :=
  .ofEntries (targets.map fun field => (field.1, field.2.convert (v.field field.1)))

theorem get?_convertFields (v : Value) (targets : List (Key × Target)) (key : Key) :
    (v.convertFields targets).get? key =
      (targets.reverse.lookup key).map (·.convert (v.field key)) := by
  rw [convertFields, KeyedList.get?_ofEntries, ← List.map_reverse]
  exact lookup_map (fun key t => t.convert (v.field key)) targets.reverse key

theorem wellFormed_convertFields (v : Value) (targets : List (Key × Target)) :
    (v.convertFields targets).WellFormed := KeyedList.wellFormed_ofEntries _

theorem outcome_coerceFields_concat (v : Value) (specs : List (Key × String)) (key : Key)
    (spec : String) :
    (v.coerceFields (specs ++ [(key, spec)])).outcome = (do
      let result ← (v.coerceFields specs).outcome
      return result.insert key (← ((v.field key).coerce spec).outcome)) := by
  simp only [coerceFields, List.foldlM_append, List.foldlM_cons, List.foldlM_nil, bind_pure,
    Traced.outcome_bind, Traced.outcome_pure]
  rfl

theorem outcome_coerceFields (v : Value) (targets : List (Key × Target)) :
    (v.coerceFields (targetSpecs targets)).outcome = .ok (v.convertFields targets) := by
  induction targets using List.reverseRecOn with
  | nil => rfl
  | append_singleton targets last ih =>
    obtain ⟨key, t⟩ := last
    have hspecs : targetSpecs (targets ++ [(key, t)]) = targetSpecs targets ++ [(key, t.text)] := by
      rw [targetSpecs, List.map_append, ← targetSpecs]
      rfl
    rw [hspecs, outcome_coerceFields_concat, ih, outcome_coerce_text, convertFields, convertFields,
      List.map_append, List.map_singleton, KeyedList.ofEntries_concat]
    rfl

/-- A list comes out only if all specs are good. -/
theorem verdict_of_coerceFields {v : Value} {specs : List (Key × String)}
    {result : KeyedList Value} (h : (v.coerceFields specs).outcome = .ok result) :
    ∀ field ∈ specs, Spec.verdict field.2 = .ok () := by
  induction specs using List.reverseRecOn generalizing result with
  | nil => simp
  | append_singleton specs last ih =>
    obtain ⟨key, spec⟩ := last
    rw [outcome_coerceFields_concat] at h
    obtain ⟨rest, hrest, h⟩ := bind_eq_ok_iff.1 h
    obtain ⟨x, hlast, -⟩ := bind_eq_ok_iff.1 h
    have hok : ((v.field key).coerce spec).outcome.isOk := by
      rw [hlast]
      rfl
    intro field hfield
    rcases List.mem_append.1 hfield with hfield | hfield
    · exact ih hrest field hfield
    · rw [List.mem_singleton.1 hfield]
      exact isOk_outcome_coerce_iff.1 hok

/-! ## The first malformed spec -/

/-- The specs before a malformed one are coerced, and those after it are not looked at. -/
theorem outcome_coerceFields_of_fault (v : Value) {before after : List (Key × String)}
    {field : Key × String} {e : SpecError}
    (hbefore : ∀ other ∈ before, Spec.verdict other.2 = .ok ())
    (hfield : Spec.verdict field.2 = .error e) :
    (v.coerceFields (before ++ field :: after)).outcome = .error e := by
  obtain ⟨targets, rfl⟩ := exists_targetSpecs_eq hbefore
  rw [coerceFields, List.foldlM_append, ← coerceFields,
    Traced.outcome_bind_of_ok (v.outcome_coerceFields targets), List.foldlM_cons]
  refine Traced.outcome_bind_of_error (Traced.outcome_bind_of_error ?_)
  exact outcome_coerce_of_verdict hfield (v.field field.1)

end Value

/-- All specs are good, or there is a first one that is not. -/
theorem good_or_first_fault (specs : List (Key × String)) :
    (∀ field ∈ specs, Spec.verdict field.2 = .ok ()) ∨
      ∃ before field after e, specs = before ++ field :: after ∧
        (∀ other ∈ before, Spec.verdict other.2 = .ok ()) ∧
        Spec.verdict field.2 = .error e := by
  induction specs with
  | nil => exact .inl fun field h => absurd h List.not_mem_nil
  | cons first rest ih =>
    cases hfirst : Spec.verdict first.2 with
    | error e =>
      exact .inr ⟨[], first, rest, e, rfl, fun other h => absurd h List.not_mem_nil, hfirst⟩
    | ok =>
      rcases ih with hrest | ⟨before, field, after, e, hspecs, hbefore, hfield⟩
      · exact .inl (List.forall_mem_cons.2 ⟨hfirst, hrest⟩)
      · refine .inr ⟨first :: before, field, after, e, by rw [hspecs, List.cons_append], ?_, hfield⟩
        exact List.forall_mem_cons.2 ⟨hfirst, hbefore⟩

namespace Value

theorem outcome_coerceFields_eq_error_iff {v : Value} {specs : List (Key × String)}
    {e : SpecError} :
    (v.coerceFields specs).outcome = .error e ↔
      ∃ before field after, specs = before ++ field :: after ∧
        (∀ other ∈ before, Spec.verdict other.2 = .ok ()) ∧
        Spec.verdict field.2 = .error e := by
  constructor
  · intro h
    rcases good_or_first_fault specs with hgood | ⟨before, field, after, e', hspecs, hbefore, hfield⟩
    · obtain ⟨targets, rfl⟩ := exists_targetSpecs_eq hgood
      rw [outcome_coerceFields] at h
      cases h
    · rw [hspecs, outcome_coerceFields_of_fault v hbefore hfield] at h
      cases h
      exact ⟨before, field, after, hspecs, hbefore, hfield⟩
  · rintro ⟨before, field, after, rfl, hbefore, hfield⟩
    exact outcome_coerceFields_of_fault v hbefore hfield

/-! ## What the result depends on -/

/-- Of the value, only the fields that have a spec count, for the events on the way too. -/
theorem coerceFields_congr {v w : Value} {specs : List (Key × String)}
    (h : ∀ field ∈ specs, v.field field.1 = w.field field.1) :
    v.coerceFields specs = w.coerceFields specs := by
  induction specs using List.reverseRecOn with
  | nil => rfl
  | append_singleton specs last ih =>
    have hspecs : v.coerceFields specs = w.coerceFields specs :=
      ih fun field hfield => h field (List.mem_append_left _ hfield)
    have hlast : v.field last.1 = w.field last.1 := h last (by simp)
    simp only [coerceFields] at hspecs ⊢
    simp only [List.foldlM_append, hspecs, List.foldlM_cons, List.foldlM_nil, hlast]

theorem keys_convertFields (v : Value) (targets : List (Key × Target)) :
    (v.convertFields targets).keys = (targets.map (·.1)).eraseDups := by
  rw [convertFields, KeyedList.keys_ofEntries, List.map_map]
  rfl

theorem convertFields_congr {v w : Value} {targets : List (Key × Target)}
    (h : ∀ field ∈ targets, v.field field.1 = w.field field.1) :
    v.convertFields targets = w.convertFields targets := by
  have hentries : targets.map (fun field => (field.1, field.2.convert (v.field field.1))) =
      targets.map fun field => (field.1, field.2.convert (w.field field.1)) :=
    List.map_congr_left fun field hfield => by rw [h field hfield]
  rw [convertFields, convertFields, hentries]

/-- Under distinct keys the entries come in the order of the specs. -/
theorem toList_convertFields_of_nodup (v : Value) {targets : List (Key × Target)}
    (h : (targets.map (·.1)).Nodup) :
    (v.convertFields targets).toList =
      targets.map fun field => (field.1, field.2.convert (v.field field.1)) := by
  refine KeyedList.toList_ofEntries_of_nodup _ ?_
  rw [List.map_map]
  exact h

/-- A key comes with what its last spec makes of the field. -/
theorem outcome_coerce_of_mem_convertFields {v : Value} {targets : List (Key × Target)}
    {entry : Key × Value} (h : entry ∈ (v.convertFields targets).toList) :
    ∃ spec, (targetSpecs targets).reverse.lookup entry.1 = some spec ∧
      ((v.field entry.1).coerce spec).outcome = .ok entry.2 := by
  have hget := (v.wellFormed_convertFields targets).get?_of_mem h
  rw [get?_convertFields] at hget
  obtain ⟨t, ht, hconvert⟩ := Option.map_eq_some_iff.1 hget
  refine ⟨t.text, by rw [lookup_reverse_targetSpecs, ht, Option.map_some], ?_⟩
  rw [outcome_coerce_text, hconvert]

/-- A coercion of fields fails with the error of the first malformed spec, whatever the value is.
Without one it gives a list with each key once, in the order in which they first come, and under a
key is what the last spec for it makes of the field. Nothing else in the value counts, and if all keys
are distinct, the order of the specs is that of the entries alone. -/
theorem coerceFields_first_fault_last_spec :
    (∀ (v : Value) (specs : List (Key × String)) (e : SpecError),
      (v.coerceFields specs).outcome = .error e ↔
        ∃ before field after, specs = before ++ field :: after ∧
          (∀ other ∈ before, Spec.verdict other.2 = .ok ()) ∧
          Spec.verdict field.2 = .error e) ∧
    (∀ (v : Value) (specs : List (Key × String)),
      (∀ field ∈ specs, Spec.verdict field.2 = .ok ()) →
        ∃ result, (v.coerceFields specs).outcome = .ok result ∧
          result.keys = (specs.map (·.1)).eraseDups ∧ result.keys.Nodup ∧
          ∀ entry ∈ result.toList, ∃ spec, specs.reverse.lookup entry.1 = some spec ∧
            ((v.field entry.1).coerce spec).outcome = .ok entry.2) ∧
    (∀ (v w : Value) (specs : List (Key × String)),
      (∀ field ∈ specs, v.field field.1 = w.field field.1) →
        v.coerceFields specs = w.coerceFields specs) ∧
    ∀ (v : Value) (specs specs' : List (Key × String)), specs.Perm specs' →
      (specs.map (·.1)).Nodup → (∀ field ∈ specs, Spec.verdict field.2 = .ok ()) →
        ∃ result result', (v.coerceFields specs).outcome = .ok result ∧
          (v.coerceFields specs').outcome = .ok result' ∧
          result.toList.Perm result'.toList := by
  refine ⟨fun v specs e => outcome_coerceFields_eq_error_iff, fun v specs hgood => ?_,
    fun v w specs => coerceFields_congr, fun v specs specs' hperm hnodup hgood => ?_⟩
  · obtain ⟨targets, rfl⟩ := exists_targetSpecs_eq hgood
    refine ⟨_, v.outcome_coerceFields targets, ?_, (v.wellFormed_convertFields targets).nodup,
      fun entry hentry => ?_⟩
    · rw [map_fst_targetSpecs, keys_convertFields]
    · exact outcome_coerce_of_mem_convertFields hentry
  · obtain ⟨targets, rfl⟩ := exists_targetSpecs_eq hgood
    obtain ⟨targets', rfl⟩ := exists_targetSpecs_eq fun field hfield =>
      hgood field (hperm.mem_iff.2 hfield)
    have htargets : targets.Perm targets' := perm_of_targetSpecs hperm
    rw [map_fst_targetSpecs] at hnodup
    have hnodup' : (targets'.map (·.1)).Nodup := (htargets.map _).nodup_iff.1 hnodup
    refine ⟨_, _, v.outcome_coerceFields targets, v.outcome_coerceFields targets', ?_⟩
    rw [toList_convertFields_of_nodup v hnodup, toList_convertFields_of_nodup v hnodup']
    exact htargets.map _

theorem coerceFields_first_fault_last_spec_repeated_field :
    (((Value.str "7").coerceFields
        [(.name "a", "int"), (.name "b", "int.x"), (.name "b", "float")]).outcome =
      .error ⟨.unexpectedModifiers (.scalar .int) "x", some "int.x"⟩) ∧
    (∃ result, (Value.null.coerceFields
          [(.name "a", "int"), (.index 0, "array"), (.name "a", "bool")]).outcome = .ok result ∧
        result.keys = [.name "a", .index 0] ∧ result.keys.Nodup ∧
        ∀ entry ∈ result.toList, ∃ spec,
          [(Key.name "a", "bool"), (.index 0, "array"), (.name "a", "int")].lookup entry.1 =
            some spec ∧ ((Value.null.field entry.1).coerce spec).outcome = .ok entry.2) ∧
    (Value.null.coerceFields [(.name "a", "int")] =
      (Value.bool true).coerceFields [(.name "a", "int")]) ∧
    ∃ result result',
      (Value.null.coerceFields [(.name "a", "int"), (.index 0, "array")]).outcome = .ok result ∧
      (Value.null.coerceFields [(.index 0, "array"), (.name "a", "int")]).outcome = .ok result' ∧
      result.toList.Perm result'.toList := by
  have hthree : ∀ field ∈ [(Key.name "a", "int"), (.index 0, "array"), (.name "a", "bool")],
      Spec.verdict field.2 = .ok () := by
    simp only [List.forall_mem_cons]
    exact ⟨rfl, rfl, rfl, fun field h => absurd h List.not_mem_nil⟩
  have htwo : ∀ field ∈ [(Key.name "a", "int"), (.index 0, "array")],
      Spec.verdict field.2 = .ok () := by
    simp only [List.forall_mem_cons]
    exact ⟨rfl, rfl, fun field h => absurd h List.not_mem_nil⟩
  obtain ⟨herror, hlist, hfields, hperm⟩ := coerceFields_first_fault_last_spec
  refine ⟨(herror _ _ _).2 ⟨[(.name "a", "int")], _, _, rfl, ?_, rfl⟩, hlist .null _ hthree,
    hfields _ _ _ fun _ _ => rfl, hperm .null _ _ (.swap _ _ _) (by decide) htwo⟩
  exact List.forall_mem_singleton.2 rfl

end Value

end LooseTypes
