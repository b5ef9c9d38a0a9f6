import LooseTypes.KeyedList.Basic

/-!
# Visiting the values of a list

A function that may fail and may change a state is called on the values of a list in order. If all
calls succeed, their results stand under the old keys (`KeyedList.run_mapValuesM_of_succeeds`); if
not, the first failure is that of the whole, and no value behind it is looked at
(`KeyedList.run_mapValuesM_of_fails`). One of the two is the case (`succeeds_or_fails`), so a run
that gives a list has changed no more than the values (`KeyedList.WellFormed.mapValuesM`). The calls
are seen by noting each of them (`noting`); calls that note themselves leave one note for each value
(`KeyedList.run_mapValuesM_notes`).
-/

namespace LooseTypes

/-! ## Calls one after the other -/

section Calls

variable {ε σ α β γ : Type} {f : α → ExceptT ε (StateM σ) β} {s t u : σ} {values : List α}
  {results : List β}

/-- The calls on the values succeed one after the other, each from the state that the one before it
left, and lead from the first state to the last. -/
inductive Succeeds (f : α → ExceptT ε (StateM σ) β) : σ → List α → List β → σ → Prop where
  | nil (s : σ) : Succeeds f s [] [] s
  | cons {s t u : σ} {value : α} {result : β} {values : List α} {results : List β} :
    (f value).run.run s = (.ok result, u) → Succeeds f u values results t →
    Succeeds f s (value :: values) (result :: results) t

/-- The calls before this one succeed, and this one fails. -/
def Fails (f : α → ExceptT ε (StateM σ) β) (s : σ) (before : List α) (value : α) (e : ε) (t : σ) :
    Prop :=
  ∃ results u, Succeeds f s before results u ∧ (f value).run.run u = (.error e, t)

/-- The same calls, with a note of each value, also of one that fails. -/
def noting (f : α → ExceptT ε (StateM σ) β) (value : α) : ExceptT ε (StateM (List α × σ)) β :=
  ExceptT.mk fun (called, s) =>
    let (outcome, t) := (f value).run.run s
    (outcome, called ++ [value], t)

theorem Succeeds.length_eq (h : Succeeds f s values results t) : values.length = results.length := by
  induction h with
  | nil => rfl
  | cons _ _ ih => rw [List.length_cons, List.length_cons, ih]

/-- All calls succeed, or there is a first one that fails. -/
theorem succeeds_or_fails (f : α → ExceptT ε (StateM σ) β) (s : σ) (values : List α) :
    (∃ results t, Succeeds f s values results t) ∨
      ∃ before value after e t, values = before ++ value :: after ∧ Fails f s before value e t := by
  induction values generalizing s with
  | nil => exact .inl ⟨[], s, .nil s⟩
  | cons value rest ih =>
    obtain ⟨outcome, u, hcall⟩ : ∃ outcome u, (f value).run.run s = (outcome, u) := ⟨_, _, rfl⟩
    cases outcome with
    | error e => exact .inr ⟨[], value, rest, e, u, rfl, ⟨[], s, .nil s, hcall⟩⟩
    | ok result =>
      rcases ih u with ⟨results, t, h⟩ | ⟨before, failing, after, e, t, hrest, ⟨results, u', h, hfail⟩⟩
      · exact .inl ⟨result :: results, t, .cons hcall h⟩
      · refine .inr ⟨value :: before, failing, after, e, t, by rw [hrest, List.cons_append], ?_⟩
        exact ⟨result :: results, u', .cons hcall h, hfail⟩

theorem run_noting (called : List α) (s : σ) (value : α) :
    (noting f value).run.run (called, s) =
      (((f value).run.run s).1, called ++ [value], ((f value).run.run s).2) := rfl

theorem Succeeds.noting (h : Succeeds f s values results t) (called : List α) :
    Succeeds (noting f) (called, s) values results (called ++ values, t) := by
  induction h generalizing called with
  | nil s =>
    rw [List.append_nil]
    exact .nil _
  | @cons s t u value result values results hcall _ ih =>
    have hrest := ih (called ++ [value])
    rw [List.append_assoc, List.singleton_append] at hrest
    exact .cons (by rw [run_noting, hcall]) hrest

theorem Fails.noting {before : List α} {value : α} {e : ε} (h : Fails f s before value e t) :
    Fails (noting f) ([], s) before value e (before ++ [value], t) := by
  obtain ⟨results, u, hbefore, hfail⟩ := h
  exact ⟨results, (before, u), hbefore.noting [], by rw [run_noting, hfail]⟩

/-! ## Steps in a row -/

theorem run_bind_of_ok {x : ExceptT ε (StateM σ) α} {g : α → ExceptT ε (StateM σ) γ} {a : α}
    (h : x.run.run s = (.ok a, u)) : (x >>= g).run.run s = (g a).run.run u := by
  rw [ExceptT.run_bind, StateT.run_bind, h]
  rfl

theorem run_bind_of_error {x : ExceptT ε (StateM σ) α} {g : α → ExceptT ε (StateM σ) γ} {e : ε}
    (h : x.run.run s = (.error e, u)) : (x >>= g).run.run s = (.error e, u) := by
  rw [ExceptT.run_bind, StateT.run_bind, h]
  rfl

end Calls

namespace KeyedList

variable {ε σ α β : Type} {f : α → ExceptT ε (StateM σ) β} {s t : σ}

/-! ## Runs over the entries -/

/-- The call on the value of an entry. -/
abbrev visitEntry (f : α → ExceptT ε (StateM σ) β) (entry : Key × α) :
    ExceptT ε (StateM σ) (Key × β) := do
  return (entry.1, ← f entry.2)

theorem run_visitEntry_of_ok {entry : Key × α} {result : β}
    (h : (f entry.2).run.run s = (.ok result, t)) :
    (visitEntry f entry).run.run s = (.ok (entry.1, result), t) :=
  run_bind_of_ok h

theorem run_mapM_of_succeeds {entries : List (Key × α)} {results : List β}
    (h : Succeeds f s (entries.map (·.2)) results t) :
    (entries.mapM (visitEntry f)).run.run s = (.ok ((entries.map (·.1)).zip results), t) := by
  induction entries generalizing s results with
  | nil =>
    cases h
    rfl
  | cons entry rest ih =>
    cases h with
    | cons hcall hrest =>
      rw [List.mapM_cons, run_bind_of_ok (run_visitEntry_of_ok hcall), run_bind_of_ok (ih hrest)]
      rfl

theorem run_mapM_of_fails {before after : List (Key × α)} {entry : Key × α} {e : ε}
    (h : Fails f s (before.map (·.2)) entry.2 e t) :
    ((before ++ entry :: after).mapM (visitEntry f)).run.run s = (.error e, t) := by
  obtain ⟨results, u, hbefore, hfail⟩ := h
  rw [List.mapM_append, run_bind_of_ok (run_mapM_of_succeeds hbefore), List.mapM_cons]
  refine run_bind_of_error (run_bind_of_error ?_)
  exact run_bind_of_error hfail

/-! ## Runs over a list -/

variable {l : KeyedList α} {results : List β}

theorem mapValuesM_eq (f : α → ExceptT ε (StateM σ) β) (l : KeyedList α) :
    l.mapValuesM f = do
      let entries ← l.toList.mapM (visitEntry f)
      return ⟨entries.toArray, l.index, l.next⟩ := by
  rw [mapValuesM, Array.mapM_eq_mapM_toList, map_eq_pure_bind, bind_assoc]
  simp only [pure_bind]
  rfl

/-- The results under the old keys, with the old hash index and the old next index. -/
def withValues (l : KeyedList α) (results : List β) : KeyedList β :=
  ⟨(l.keys.zip results).toArray, l.index, l.next⟩

theorem run_mapValuesM_of_succeeds (h : Succeeds f s l.values results t) :
    (l.mapValuesM f).run.run s = (.ok (l.withValues results), t) := by
  rw [mapValuesM_eq, run_bind_of_ok (run_mapM_of_succeeds h)]
  rfl

theorem run_mapValuesM_of_fails {before after : List α} {value : α} {e : ε}
    (hvalues : l.values = before ++ value :: after) (h : Fails f s before value e t) :
    (l.mapValuesM f).run.run s = (.error e, t) := by
  obtain ⟨left, right, hl, rfl, hright⟩ := List.map_eq_append_iff.1 hvalues
  obtain ⟨entry, rest, rfl, rfl, rfl⟩ := List.map_eq_cons_iff.1 hright
  rw [mapValuesM_eq, hl]
  exact run_bind_of_error (run_mapM_of_fails h)

theorem length_keys (l : KeyedList α) : l.keys.length = l.values.length := by
  rw [keys, values, List.length_map, List.length_map]

theorem keys_withValues (h : l.values.length = results.length) :
    (l.withValues results).keys = l.keys := by
  rw [keys, withValues, toList]
  exact List.map_fst_zip (Nat.le_of_eq (l.length_keys.trans h))

theorem values_withValues (h : l.values.length = results.length) :
    (l.withValues results).values = results := by
  rw [values, withValues, toList]
  exact List.map_snd_zip (Nat.le_of_eq (l.length_keys.trans h).symm)

theorem exists_of_run_mapValuesM {l' : KeyedList β}
    (h : (l.mapValuesM f).run.run s = (.ok l', t)) :
    ∃ results, Succeeds f s l.values results t ∧ l' = l.withValues results := by
  rcases succeeds_or_fails f s l.values with ⟨results, t', hs⟩ | ⟨_, _, _, _, _, hvalues, hf⟩
  · rw [run_mapValuesM_of_succeeds hs] at h
    cases h
    exact ⟨results, hs, rfl⟩
  · rw [run_mapValuesM_of_fails hvalues hf] at h
    cases h

theorem keys_of_run_mapValuesM {l' : KeyedList β}
    (h : (l.mapValuesM f).run.run s = (.ok l', t)) : l'.keys = l.keys := by
  obtain ⟨results, hs, rfl⟩ := exists_of_run_mapValuesM h
  exact keys_withValues hs.length_eq

namespace WellFormed

theorem withValues (hl : l.WellFormed) (h : l.values.length = results.length) :
    (l.withValues results).WellFormed := by
  refine ⟨?_, ?_, ?_⟩ <;> rw [keys_withValues h]
  · exact hl.nodup
  · exact hl.index_eq
  · exact hl.next_eq

theorem mapValuesM {l' : KeyedList β} (hl : l.WellFormed)
    (h : (l.mapValuesM f).run.run s = (.ok l', t)) : l'.WellFormed := by
  obtain ⟨results, hs, rfl⟩ := exists_of_run_mapValuesM h
  exact hl.withValues hs.length_eq

end WellFormed

/-! ## Calls that note themselves -/

section Notes

variable {m : Type → Type} [Monad m] [LawfulMonad m] {α β γ : Type} {f : α → StateT (List γ) m β}
  {g : α → m β} {note : α → γ}

theorem run_mapM_notes (h : ∀ a before, (f a).run before = do return (← g a, before ++ [note a]))
    (values : List α) (before : List γ) :
    (values.mapM f).run before = do return (← values.mapM g, before ++ values.map note) := by
  induction values generalizing before with
  | nil => simp
  | cons value rest ih =>
    simp only [List.mapM_cons, StateT.run_bind, h, ih, StateT.run_pure, bind_assoc, pure_bind,
      List.map_cons, List.append_assoc, List.singleton_append]

theorem run_mapValuesM_notes
    (h : ∀ a before, (f a).run before = do return (← g a, before ++ [note a])) (l : KeyedList α)
    (before : List γ) :
    (l.mapValuesM f).run before = do return (← l.mapValuesM g, before ++ l.values.map note) := by
  have hentry : ∀ (entry : Key × α) (before : List γ),
      (do return (entry.1, ← f entry.2) : StateT (List γ) m (Key × β)).run before = do
        return (← (do return (entry.1, ← g entry.2) : m (Key × β)), before ++ [note entry.2]) := by
    intro entry before
    simp only [StateT.run_bind, h, StateT.run_pure, bind_assoc, pure_bind]
  have hvalues : l.values.map note = l.entries.toList.map fun entry => note entry.2 :=
    List.map_map
  simp only [mapValuesM, Array.mapM_eq_mapM_toList, map_eq_pure_bind, StateT.run_bind,
    run_mapM_notes hentry, StateT.run_pure, bind_assoc, pure_bind, hvalues]

end Notes

end KeyedList

end LooseTypes
