import LooseTypes.Command.Basic
import LooseTypes.Proofs.Command.Failure
import LooseTypes.Proofs.Command.Result

/-!
# Reports of the coercion command

A run of the coercion command either prints one JSON document or prints nothing and fails
(`succeeds_of_outcome`, `failsWith_of_outcome`). As long as the data are JSON, which of the two it is
and what the failure says is up to the specs alone, so two runs on any data end the same way
(`coerceReport_same_end`).
-/

namespace LooseTypes

/-- The run has printed one JSON document with a line end, and has written nothing but the log to
standard error. -/
structure Report.Succeeds (log : List String) (r : Report) : Prop where
  exitCode_eq : r.exitCode = 0
  stdout_eq : ∃ j : Json, Json.parse? j.render = some (j.mapRanks Json.rereadRank) ∧
    r.stdout = j.render ++ "\n"
  stderr_eq : r.stderr = unlines log

/-- The run has printed nothing, and its failure stands on standard error after the log. -/
structure Report.FailsWith (wording : Wording) (e : CommandError) (log : List String) (r : Report) :
    Prop where
  exitCode_eq : r.exitCode = e.exitCode
  stdout_eq : r.stdout = ""
  stderr_eq : r.stderr = unlines log ++ "error: " ++ e.message wording ++ "\n"

theorem CommandError.exitCode_ne_zero (e : CommandError) : e.exitCode ≠ 0 := by
  cases e <;> exact Nat.succ_ne_zero _

theorem unlines_singleton (line : String) : unlines [line] = line ++ "\n" := by simp [unlines]

theorem unlines_append (lines more : List String) :
    unlines (lines ++ more) = unlines lines ++ unlines more := by
  unfold unlines
  rw [List.map_append, String.join_append]

/-- What a run of the program with these arguments leaves. -/
def coerceReport (wording : Wording) (inputs : Inputs) (filter : Option Filter)
    (data specs : String) : Report :=
  (Command.ofArguments ["coerce", data, specs]).run inputs filter wording

def coerceLog (inputs : Inputs) (filter : Option Filter) (data specs : String) : List String :=
  logLines filter (coerceArguments inputs data specs).events

section Run

variable {inputs : Inputs} {data specs text : String} {e : CommandError}

/-- A result without its infinities is a document that is not too deep. -/
theorem exists_render_of_coerceArguments
    (h : (coerceArguments inputs data specs).outcome = .ok text) :
    ∃ j : Json, Json.parse? j.render = some (j.mapRanks Json.rereadRank) ∧ j.render = text := by
  obtain ⟨set, json, v, r, hset, -, hv, hr, rfl⟩ := outcome_coerceArguments_eq_ok_iff.1 h
  obtain ⟨targets, rfl⟩ := TargetSet.exists_of_coerceBy hr
  rw [targets.outcome_coerceBy, Except.ok.injEq] at hr
  subst hr
  have hportable : ((targets.convert v).readBack id).Portable 127 :=
    targets.portable_convert (SpecSet.isNormal_of_ofArgument hset) (Value.portable_of_ofJsonText? hv)
  have hdepth : (targets.convert v).toJson.depth ≤ Json.maxDepth := by
    rw [← Value.toJson_readBack_id]
    exact Value.depth_toJson_le hportable
  exact ⟨_, Json.parse?_render hdepth, rfl⟩

theorem succeeds_of_outcome (wording : Wording) (filter : Option Filter)
    (h : (coerceArguments inputs data specs).outcome = .ok text) :
    (coerceReport wording inputs filter data specs).Succeeds
      (coerceLog inputs filter data specs) := by
  have hreport : coerceReport wording inputs filter data specs =
      ⟨0, unlines [text], unlines (coerceLog inputs filter data specs)⟩ := by
    show (Command.coerce data specs).run inputs filter wording = _
    simp only [Command.run, h, coerceLog]
  obtain ⟨j, hj, rfl⟩ := exists_render_of_coerceArguments h
  rw [hreport, unlines_singleton]
  exact ⟨rfl, ⟨j, hj, rfl⟩, rfl⟩

theorem failsWith_of_outcome (wording : Wording) (filter : Option Filter)
    (h : (coerceArguments inputs data specs).outcome = .error e) :
    (coerceReport wording inputs filter data specs).FailsWith wording e
      (coerceLog inputs filter data specs) := by
  have hreport : coerceReport wording inputs filter data specs =
      ⟨e.exitCode, "",
        unlines (coerceLog inputs filter data specs ++ [errorLine (e.message wording)])⟩ := by
    show (Command.coerce data specs).run inputs filter wording = _
    simp only [Command.run, h, coerceLog]
  rw [hreport, unlines_append, unlines_singleton, errorLine]
  refine ⟨rfl, rfl, ?_⟩
  simp only [String.append_assoc]

end Run

/-! ## Two runs -/

/-- On data that are JSON the specs decide. -/
theorem outcome_coerceArguments_same_end {inputs inputs' : Inputs} {data data' : String}
    (h : (dataValue inputs data).isOk) (h' : (dataValue inputs' data').isOk) (specs : String) :
    (∃ text text', (coerceArguments inputs data specs).outcome = .ok text ∧
      (coerceArguments inputs' data' specs).outcome = .ok text') ∨
    ∃ e, (coerceArguments inputs data specs).outcome = .error e ∧
      (coerceArguments inputs' data' specs).outcome = .error e := by
  obtain ⟨v, hv⟩ := exists_eq_ok_of_isOk h
  obtain ⟨v', hv'⟩ := exists_eq_ok_of_isOk h'
  have hverdict : (do let _ ← (coerceArguments inputs' data' specs).outcome; return ()) =
      (do let _ ← (coerceArguments inputs data specs).outcome; return ()) := by
    rw [verdict_of_coerceArguments, verdict_of_coerceArguments, hv, hv']
    rfl
  cases hrun : (coerceArguments inputs data specs).outcome with
  | ok text =>
    rw [hrun] at hverdict
    obtain ⟨text', htext'⟩ := exists_eq_ok_of_isOk (bind_pure_unit_eq_ok_iff.1 hverdict)
    exact .inl ⟨text, text', rfl, htext'⟩
  | error e =>
    rw [hrun] at hverdict
    exact .inr ⟨e, rfl, bind_pure_eq_error_iff.1 hverdict⟩

/-- On data that are JSON two runs with the same specs end alike: both print a document, or both have
the same failure. Every run that fails prints nothing, and its exit code is 1 exactly if a spec is
malformed. -/
theorem coerceReport_same_end :
    (∀ (wording : Wording) (inputs inputs' : Inputs) (filter filter' : Option Filter)
      (data data' specs : String),
      (dataValue inputs data).isOk → (dataValue inputs' data').isOk →
        (coerceReport wording inputs filter data specs).Succeeds (coerceLog inputs filter data specs) ∧
          (coerceReport wording inputs' filter' data' specs).Succeeds
            (coerceLog inputs' filter' data' specs) ∨
        ∃ e : CommandError, e.exitCode ≠ 0 ∧
          (coerceReport wording inputs filter data specs).FailsWith wording e
            (coerceLog inputs filter data specs) ∧
          (coerceReport wording inputs' filter' data' specs).FailsWith wording e
            (coerceLog inputs' filter' data' specs)) ∧
    ∀ (wording : Wording) (inputs : Inputs) (filter : Option Filter) (data specs : String),
      ((coerceReport wording inputs filter data specs).exitCode ≠ 0 →
        (coerceReport wording inputs filter data specs).stdout = "") ∧
      ((coerceReport wording inputs filter data specs).exitCode = 1 ↔
        ∃ error, (coerceArguments inputs data specs).outcome = .error (.spec error)) := by
  refine ⟨fun wording inputs inputs' filter filter' data data' specs h h' => ?_,
    fun wording inputs filter data specs => ?_⟩
  · rcases outcome_coerceArguments_same_end h h' specs with ⟨text, text', hrun, hrun'⟩ | ⟨e, hrun, hrun'⟩
    · exact .inl ⟨succeeds_of_outcome wording filter hrun, succeeds_of_outcome wording filter' hrun'⟩
    · exact .inr ⟨e, e.exitCode_ne_zero, failsWith_of_outcome wording filter hrun,
        failsWith_of_outcome wording filter' hrun'⟩
  · cases hrun : (coerceArguments inputs data specs).outcome with
    | ok text =>
      have hreport := succeeds_of_outcome wording filter hrun
      rw [hreport.exitCode_eq]
      simp
    | error e =>
      have hreport := failsWith_of_outcome wording filter hrun
      rw [hreport.exitCode_eq, CommandError.exitCode_eq_one_iff]
      simp [hreport.stdout_eq]

theorem coerceReport_same_end_stdin_and_file :
    let wording : Wording := some fun _ => "expected value at line 1 column 1"
    let stdin : Inputs := ⟨.ok "[1,\"a\"]".toUTF8, fun _ => .error .notUtf8⟩
    let file : Inputs := ⟨.error (.system "closed"), fun _ => .ok "\x7b\"a\":null\x7d".toUTF8⟩
    (dataValue stdin "-").isOk ∧ (dataValue file "@a.json").isOk ∧
      ((coerceReport wording stdin none "-" "array.int.x").Succeeds
            (coerceLog stdin none "-" "array.int.x") ∧
          (coerceReport wording file (some ⟨"", .trace⟩) "@a.json" "array.int.x").Succeeds
            (coerceLog file (some ⟨"", .trace⟩) "@a.json" "array.int.x") ∨
        ∃ e : CommandError, e.exitCode ≠ 0 ∧
          (coerceReport wording stdin none "-" "array.int.x").FailsWith wording e
            (coerceLog stdin none "-" "array.int.x") ∧
          (coerceReport wording file (some ⟨"", .trace⟩) "@a.json" "array.int.x").FailsWith wording e
            (coerceLog file (some ⟨"", .trace⟩) "@a.json" "array.int.x")) ∧
      (coerceReport wording stdin none "-" "array.int.x").exitCode ≠ 0 ∧
      (coerceReport wording stdin none "-" "array.int.x").stdout = "" := by
  intro wording stdin file
  have hstdin : (dataValue stdin "-").isOk := by decide +kernel
  have hfile : (dataValue file "@a.json").isOk := by decide +kernel
  have hfails : (coerceReport wording stdin none "-" "array.int.x").exitCode ≠ 0 := by decide +kernel
  exact ⟨hstdin, hfile, coerceReport_same_end.1 _ _ _ _ _ _ _ _ hstdin hfile, hfails,
    (coerceReport_same_end.2 _ _ _ _ _).1 hfails⟩

end LooseTypes
