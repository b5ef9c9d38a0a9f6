import LooseTypes.Proofs.Value.Lists
import LooseTypes.Session

/-!
# Lists with other values

A run over the values of a list that succeeds gives the list that is built from the old keys and the
results, one entry after the other, so all operations act on it as on any other list
(`KeyedList.WellFormed.replaced`). The list whose values were visited stays as it is, in each register
that holds it (`Session.mapValues_keeps`).
-/

namespace LooseTypes

namespace KeyedList

section Replaced

variable {α β : Type} {l : KeyedList α} {results : List β}

/-- The list `l'` is `l` with other values, and no more than its entries. -/
structure Replaced (l : KeyedList α) (results : List β) (l' : KeyedList β) : Prop where
  keys_eq : l'.keys = l.keys
  next_eq : l'.next = l.next
  values_eq : l'.values = results
  /-- Each key has the result for its old value. -/
  get?_eq : ∀ (position : Nat) (key : Key) (old : α), l.toList[position]? = some (key, old) →
    ∃ result, results[position]? = some result ∧ l.get? key = some old ∧ l'.get? key = some result
  get?_eq_none : ∀ key ∉ l.keys, l.get? key = none ∧ l'.get? key = none
  coherent : l'.Coherent
  /-- Built entry by entry it is the same list. -/
  ofEntries_eq : .ofEntries (l.keys.zip results) = l'

namespace WellFormed

theorem get?_eq_none_of_not_mem (hl : l.WellFormed) {key : Key} (hk : key ∉ l.keys) :
    l.get? key = none := by
  rw [hl.get?_eq_lookup, lookup_eq_none_of_not_mem hk]

theorem replaced (hl : l.WellFormed) (h : l.values.length = results.length) :
    l.Replaced results (l.withValues results) where
  keys_eq := keys_withValues h
  next_eq := rfl
  values_eq := values_withValues h
  get?_eq position key old hold := by
    have hlt : position < results.length := by
      rw [← h, values, List.length_map]
      exact (List.getElem?_eq_some_iff.1 hold).1
    have hkey : l.keys[position]? = some key := by rw [keys, List.getElem?_map, hold]; rfl
    have hresult : results[position]? = some results[position] := List.getElem?_eq_getElem hlt
    refine ⟨results[position], hresult, hl.get?_of_mem (List.mem_of_getElem? hold), ?_⟩
    have hentry : (l.withValues results).toList[position]? = some (key, results[position]) :=
      List.getElem?_zip_eq_some.2 ⟨hkey, hresult⟩
    exact (hl.withValues h).get?_of_mem (List.mem_of_getElem? hentry)
  get?_eq_none key hk :=
    ⟨hl.get?_eq_none_of_not_mem hk,
      (hl.withValues h).get?_eq_none_of_not_mem (by rwa [keys_withValues h])⟩
  coherent := (hl.withValues h).coherent
  ofEntries_eq := (hl.withValues h).ofEntries_toList

end WellFormed

end Replaced

end KeyedList

/-! ## The list that is visited -/

namespace Session

theorem register_set_of_ne (s : Session) {name target : String} (h : name ≠ target) (v : Value) :
    (s.set target v).register name = s.register name := by
  rw [register, register, set, List.lookup_cons, beq_eq_false_iff_ne.2 h]

/-- A run over a list that fails changes no register, and every run leaves all but the target. -/
theorem mapValues_keeps (s : Session) (items : KeyedList Value) (spec : String) (stop : Option Kind)
    (target : String) :
    ((∃ e, (s.mapValues items spec stop target).2.1 = .error e) →
      (s.mapValues items spec stop target).2.2 = s) ∧
    ∀ name ≠ target, (s.mapValues items spec stop target).2.2.register name = s.register name := by
  unfold mapValues
  obtain ⟨outcome, seen⟩ := ((items.mapValuesM (mapValues.visit spec stop)).run.run 0).run
  cases outcome with
  | error e => exact ⟨fun _ => rfl, fun name _ => rfl⟩
  | ok result => exact ⟨nofun, fun name h => register_set_of_ne s h _⟩

end Session

/-! ## Visits up to the first failure -/

namespace KeyedList

/-- A function that may fail and may change a state is called on the values of a list in order: on all
of them if every call succeeds, and otherwise on those up to the first failure, which is that of the
whole. In the first case the results come under the keys of their values, in the list that is built
from these entries. The list that is visited stays as it is. -/
theorem mapValuesM_visits_up_to_failure :
    (∀ {ε σ : Type} (l : KeyedList Value) (f : Value → ExceptT ε (StateM σ) Value) (s : σ),
      l.Reachable →
      ((∃ results t, Succeeds f s l.values results t) ∨
        ∃ before value after e t, l.values = before ++ value :: after ∧
          Fails f s before value e t) ∧
      (∀ results t, Succeeds f s l.values results t → ∃ l',
        (l.mapValuesM f).run.run s = (.ok l', t) ∧
        (l.mapValuesM (noting f)).run.run ([], s) = (.ok l', l.values, t) ∧
        l.Replaced results l' ∧ l'.ActsAsEntries) ∧
      ∀ before value after e t, l.values = before ++ value :: after → Fails f s before value e t →
        (l.mapValuesM f).run.run s = (.error e, t) ∧
        (l.mapValuesM (noting f)).run.run ([], s) = (.error e, before ++ [value], t)) ∧
    ∀ (session : Session) (items : KeyedList Value) (spec : String) (stop : Option Kind)
      (target : String),
      ((∃ e, (session.mapValues items spec stop target).2.1 = .error e) →
        (session.mapValues items spec stop target).2.2 = session) ∧
      ∀ name ≠ target,
        (session.mapValues items spec stop target).2.2.register name = session.register name := by
  refine ⟨fun l f s hl => ⟨succeeds_or_fails f s l.values, fun results t h => ?_,
    fun before value after e t hvalues h => ?_⟩, Session.mapValues_keeps⟩
  · have hlength := h.length_eq
    exact ⟨l.withValues results, run_mapValuesM_of_succeeds h,
      run_mapValuesM_of_succeeds (h.noting []), hl.wellFormed.replaced hlength,
      (hl.wellFormed.withValues hlength).actsAsEntries⟩
  · exact ⟨run_mapValuesM_of_fails hvalues h, run_mapValuesM_of_fails hvalues h.noting⟩

/-- The calls are numbered by a state, and null makes one fail. -/
theorem mapValuesM_visits_up_to_failure_numbered :
    let f : Value → ExceptT Kind (StateM Nat) Value := fun v => do
      let n ← get
      set (n + 1)
      if v.isNull then throw v.kind
      return .int (Int64.ofNat n)
    let l : KeyedList Value := .ofEntries [(.name "b", .str "x"), (.index (-7), .bool true)]
    let full : KeyedList Value :=
      .ofEntries [(.name "b", .str "x"), (.index 5, .null), (.name "05", .str "y")]
    let s : Session := Session.empty.set "a" (.list full)
    (l.Reachable ∧ Succeeds f 3 l.values [.int 3, .int 4] 5 ∧ ∃ l',
      (l.mapValuesM f).run.run 3 = (.ok l', 5) ∧
      (l.mapValuesM (noting f)).run.run ([], 3) = (.ok l', l.values, 5) ∧
      l.Replaced [.int 3, .int 4] l' ∧ l'.ActsAsEntries) ∧
    (full.values = [.str "x"] ++ .null :: [.str "y"] ∧ Fails f 0 [.str "x"] .null .null 2 ∧
      (full.mapValuesM f).run.run 0 = (.error .null, 2) ∧
      (full.mapValuesM (noting f)).run.run ([], 0) = (.error .null, [.str "x"] ++ [.null], 2)) ∧
    ((s.mapValues full "int" (some .null) "a").2.1 = .error (.stopped .null) ∧
      (s.mapValues full "int" (some .null) "a").2.2 = s) ∧
    (s.mapValues full "int" none "b").2.2.register "a" = s.register "a" := by
  intro f l full s
  obtain ⟨hvisit, hkeeps⟩ := mapValuesM_visits_up_to_failure
  have hlvalues : l.values = [.str "x", .bool true] := by
    rw [values, toList_ofEntries_of_nodup _ (by decide)]
    rfl
  have hfullvalues : full.values = [.str "x"] ++ .null :: [.str "y"] := by
    rw [values, toList_ofEntries_of_nodup _ (by decide)]
    rfl
  have hsucceeds : Succeeds f 3 l.values [.int 3, .int 4] 5 :=
    hlvalues ▸ .cons rfl (.cons rfl (.nil 5))
  have hfails : Fails f 0 [.str "x"] .null .null 2 := ⟨[.int 0], 1, .cons rfl (.nil 1), rfl⟩
  have hstops : Fails (Session.mapValues.visit "int" (some .null)) 0 [.str "x"] .null
      (.stopped .null) 2 := ⟨[.int 0], 1, .cons rfl (.nil 1), rfl⟩
  have hstopped : (s.mapValues full "int" (some .null) "a").2.1 = .error (.stopped .null) := by
    have hrun := run_mapValuesM_of_fails hfullvalues hstops
    simp only [Session.mapValues, hrun]
    rfl
  exact ⟨⟨.ofEntries _, hsucceeds, (hvisit l f 3 (.ofEntries _)).2.1 _ _ hsucceeds⟩,
    ⟨hfullvalues, hfails, (hvisit full f 0 (.ofEntries _)).2.2 _ _ _ _ _ hfullvalues hfails⟩,
    ⟨hstopped, (hkeeps s full "int" (some .null) "a").1 ⟨_, hstopped⟩⟩,
    (hkeeps s full "int" none "b").2 "a" (by decide)⟩

end KeyedList

end LooseTypes
