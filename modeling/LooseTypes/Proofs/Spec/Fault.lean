import LooseTypes.Proofs.Spec.Target

/-!
# What is wrong with a text that is no spec

`Fault text e` gives the error of a text from the text alone, case by case, while the checks work on
tokens and, for the elements of an array, on the tokens joined and read again. Every text is that of
a target or has a fault (`target_or_fault`), and the checks find just this: `Spec.verdict_text` for
the targets and `Spec.verdict_of_fault` for the faults.
-/

namespace LooseTypes

/-- What reading and checking a text as a spec gives, without any data. -/
def Spec.verdict (text : String) : Except SpecError Unit := do
  let s ← Spec.parse text
  s.check

/-- The text is no spec, and the error says why. -/
inductive Fault : String → SpecError → Prop where
  /-- The first token names no type; names are exact. -/
  | unknownType {text : String} :
    firstToken text ∉ ["int", "float", "bool", "string", "array", "uint64"] →
    Fault text ⟨.unknownType (firstToken text), some text⟩
  /-- A scalar type other than `string` goes on. -/
  | unexpectedModifiers {text rest : String} {type : Scalar} :
    type ≠ .string → text = type.name ++ "." ++ rest →
    Fault text ⟨.unexpectedModifiers (.scalar type) rest, some text⟩
  /-- After some trims, `string` goes on with another token. -/
  | unknownModifier {text rest : String} {trims : Nat} :
    text = "string" ++ String.join (List.replicate trims ".trim") ++ "." ++ rest →
    firstToken rest ≠ "trim" →
    Fault text ⟨.unknownModifier (firstToken rest), some text⟩
  /-- The elements of an array are arrays. -/
  | nestedArray {text rest : String} :
    text = "array." ++ rest → firstToken rest = "array" → Fault text ⟨.nestedArray, some text⟩
  /-- The text of the elements has a fault, which is reported for that text. -/
  | element {rest : String} {e : SpecError} :
    firstToken rest ≠ "array" → Fault rest e → Fault ("array." ++ rest) e

theorem Fault.problem_ne_empty {text : String} {e : SpecError} (h : Fault text e) :
    e.problem ≠ .empty := by
  induction h with
  | unknownType | unexpectedModifiers | unknownModifier | nestedArray => exact SpecProblem.noConfusion
  | element _ _ ih => exact ih

/-! ## The checks find the fault -/

theorem Tag.ofName?_eq_none_iff {name : String} :
    Tag.ofName? name = none ↔ name ∉ ["int", "float", "bool", "string", "array", "uint64"] := by
  rw [Option.eq_none_iff_forall_ne_some]
  constructor
  · intro h hm
    simp only [List.mem_cons, List.not_mem_nil, or_false] at hm
    rcases hm with rfl | rfl | rfl | rfl | rfl | rfl <;> exact h _ rfl
  · intro h tag htag
    rw [Tag.ofName?_eq_some_iff] at htag
    rw [htag] at h
    cases tag with
    | array => exact h (by decide)
    | scalar type => cases type <;> exact h (by decide)

namespace Spec

theorem verdict_eq_check {text : String} {s : Spec} (h : parse text = .ok s) :
    verdict text = s.check := by
  rw [verdict, h]
  rfl

theorem expectNoModifiers_specTokens (tag : Tag) (rest : String) :
    (⟨tag, specTokens rest⟩ : Spec).expectNoModifiers =
      .error ⟨.unexpectedModifiers tag rest, some (⟨tag, specTokens rest⟩ : Spec).text⟩ := by
  obtain ⟨more, h⟩ := specTokens_eq_cons rest
  have hjoin : modifierText? ⟨tag, specTokens rest⟩ = some rest := by
    rw [modifierText?, if_neg (by simp [h]), joinTokens_specTokens]
  rw [expectNoModifiers, hjoin]

/-- The check of an array spec joins the tokens of its elements and reads and checks them again. -/
theorem check_array_specTokens {rest : String} (h : firstToken rest ≠ "array") :
    (⟨.array, specTokens rest⟩ : Spec).check = verdict rest := by
  obtain ⟨more, hrest⟩ := specTokens_eq_cons rest
  have hjoin : joinTokens (firstToken rest :: more) = rest := by rw [← hrest, joinTokens_specTokens]
  simp only [check, element?, hrest, Tag.name, if_neg h, hjoin]
  cases htype : Scalar.ofName? (firstToken rest) with
  | none =>
    have hnone : Tag.ofName? (firstToken rest) = none := by
      simp [Tag.ofName?, Tag.name, h, htype]
    rw [verdict, parse_eq_unknownType hnone]
    rfl
  | some type =>
    rw [Scalar.ofName?_eq_some_iff] at htype
    rw [verdict_eq_check (parse_of_specTokens (.scalar type) (htype ▸ hrest)), check]
    show (((ElementSpec.check ⟨type, more⟩) >>= fun _ => pure (some _)) >>= fun _ => pure ()) =
      ElementSpec.check ⟨type, more⟩
    cases ElementSpec.check ⟨type, more⟩ <;> rfl

theorem verdict_text (t : Target) : verdict t.text = .ok () := by
  rw [verdict_eq_check t.parse_text, t.check_toSpec]

theorem verdict_of_fault {text : String} {e : SpecError} (h : Fault text e) :
    verdict text = .error e := by
  induction h with
  | unknownType h =>
    rw [verdict, parse_eq_unknownType (Tag.ofName?_eq_none_iff.2 h)]
    rfl
  | @unexpectedModifiers text rest type htype htext =>
    have hparse : parse text = .ok ⟨.scalar type, specTokens rest⟩ :=
      htext ▸ parse_name_append (.scalar type) rest
    have hcheck : check ⟨.scalar type, specTokens rest⟩ =
        expectNoModifiers ⟨.scalar type, specTokens rest⟩ := by
      cases type <;> first | rfl | exact absurd rfl htype
    rw [verdict_eq_check hparse, hcheck, expectNoModifiers_specTokens, text_of_parse hparse]
  | @unknownModifier text rest trims htext hrest =>
    obtain ⟨more, hmore⟩ := specTokens_eq_cons rest
    have hparse : parse text = .ok ⟨.scalar .string,
        List.replicate trims "trim" ++ firstToken rest :: more⟩ := by
      rw [← hmore]
      exact htext ▸ parse_of_specTokens (.scalar .string) (specTokens_trims_append (by decide) _ _)
    rw [verdict_eq_check hparse]
    show (textModifiers _ >>= fun _ => pure ()) = _
    rw [textModifiers_of_other rfl hrest, text_of_parse hparse]
    rfl
  | @nestedArray text rest htext hrest =>
    obtain ⟨more, hmore⟩ := specTokens_eq_cons rest
    have hparse : parse text = .ok ⟨.array, "array" :: more⟩ := by
      rw [← hrest, ← hmore]
      exact htext ▸ parse_name_append .array rest
    rw [verdict_eq_check hparse]
    show Except.error (SpecError.mk .nestedArray (some (Spec.text ⟨.array, "array" :: more⟩))) = _
    rw [text_of_parse hparse]
  | @element rest e hrest _ ih =>
    have hparse : parse ("array." ++ rest) = .ok ⟨.array, specTokens rest⟩ :=
      parse_name_append .array rest
    rw [verdict_eq_check hparse, check_array_specTokens hrest, ih]

end Spec

/-! ## Every text has a target or a fault -/

/-- What follows `string` is trims to the end, or trims up to a token that is none. -/
theorem trims_or_other (rest : String) :
    (∃ trims, "." ++ rest = String.join (List.replicate trims ".trim")) ∨
      ∃ trims other, "." ++ rest = String.join (List.replicate trims ".trim") ++ "." ++ other ∧
        firstToken other ≠ "trim" := by
  by_cases ht : firstToken rest = "trim"
  · rcases pointFree_or_append rest with hp | ⟨more, hmore⟩
    · rw [firstToken_of_pointFree hp] at ht
      exact .inl ⟨1, by rw [ht]; rfl⟩
    · rw [ht] at hmore
      have hdec : more.length < rest.length := by
        rw [hmore, String.length_append, String.length_append]
        exact Nat.lt_add_of_pos_left (by decide)
      have hnext : "." ++ rest = ".trim" ++ ("." ++ more) := by
        rw [hmore, show ".trim" = "." ++ "trim" from rfl]
        simp only [String.append_assoc]
      rcases trims_or_other more with ⟨n, hn⟩ | ⟨n, other, hn, ho⟩
      · exact .inl ⟨n + 1, by rw [hnext, hn, List.replicate_succ, String.join_cons]⟩
      · refine .inr ⟨n + 1, other, ?_, ho⟩
        rw [hnext, hn, List.replicate_succ, String.join_cons]
        simp only [String.append_assoc]
  · exact .inr ⟨0, rest, by simp, ht⟩
termination_by rest.length

theorem scalar_target_or_fault (type : Scalar) (rest : String) :
    (∃ t : Target, t.text = type.name ++ "." ++ rest) ∨
      ∃ e, Fault (type.name ++ "." ++ rest) e := by
  by_cases htype : type = .string
  · have htext : type.name ++ "." ++ rest = "string" ++ ("." ++ rest) := by
      rw [htype, Scalar.name, String.append_assoc]
    rw [htext]
    rcases trims_or_other rest with ⟨n, hn⟩ | ⟨n, other, hn, ho⟩
    · exact .inl ⟨.scalar (.string n), by rw [hn, Target.text, ScalarTarget.text]⟩
    · refine .inr ⟨_, @Fault.unknownModifier _ other n ?_ ho⟩
      rw [hn]
      simp only [String.append_assoc]
  · exact .inr ⟨_, .unexpectedModifiers htype rfl⟩

theorem target_or_fault (text : String) :
    (∃ t : Target, t.text = text) ∨ ∃ e, Fault text e := by
  cases htag : Tag.ofName? (firstToken text) with
  | none => exact .inr ⟨_, .unknownType (Tag.ofName?_eq_none_iff.1 htag)⟩
  | some tag =>
    rcases Spec.text_eq_of_ofName? htag with htext | ⟨rest, htext⟩
    · exact .inl (htext ▸ Target.exists_text_eq_name tag)
    · cases tag with
      | scalar type => exact htext ▸ scalar_target_or_fault type rest
      | array =>
        rw [Tag.array_append] at htext
        have hdec : rest.length < text.length := by
          rw [htext, String.length_append]
          exact Nat.lt_add_of_pos_left (by decide)
        rw [htext]
        by_cases hrest : firstToken rest = "array"
        · exact .inr ⟨_, .nestedArray rfl hrest⟩
        · rcases target_or_fault rest with ⟨t, ht⟩ | ⟨e, he⟩
          · cases t with
            | scalar e => exact .inl ⟨.arrayOf e, by rw [← ht, Target.text, Target.text]⟩
            | array => exact absurd (by rw [← ht]; decide) hrest
            | arrayOf e => exact absurd (ht ▸ Target.firstToken_text_arrayOf e) hrest
          · exact .inr ⟨e, .element hrest he⟩
termination_by text.length

/-! ## The accepted language and its complement -/

namespace Spec

theorem verdict_eq_ok_iff {text : String} : verdict text = .ok () ↔ ∃ t : Target, t.text = text := by
  constructor
  · intro h
    refine (target_or_fault text).resolve_right fun ⟨e, he⟩ => ?_
    rw [verdict_of_fault he] at h
    cases h
  · rintro ⟨t, rfl⟩
    exact verdict_text t

theorem verdict_eq_error_iff {text : String} {e : SpecError} :
    verdict text = .error e ↔ Fault text e := by
  refine ⟨fun h => ?_, verdict_of_fault⟩
  rcases target_or_fault text with ⟨t, rfl⟩ | ⟨e', he⟩
  · rw [verdict_text] at h
    cases h
  · rw [verdict_of_fault he] at h
    cases h
    exact he

example : verdict "array.string.trim..x" =
    .error ⟨.unknownModifier "", some "string.trim..x"⟩ := rfl

/-- Reading and checking accept the texts of the targets, and every other text has exactly one
fault, which is the error that they give. -/
theorem verdict_classifies :
    (∀ text, verdict text = .ok () ↔ ∃ t : Target, t.text = text) ∧
    (∀ text e, verdict text = .error e ↔ Fault text e) ∧
    (∀ text, (¬∃ t : Target, t.text = text) → ∃ e, Fault text e ∧ ∀ e', Fault text e' → e' = e) ∧
    ∀ text spec, verdict text ≠ .error ⟨.empty, spec⟩ := by
  refine ⟨fun _ => verdict_eq_ok_iff, fun _ _ => verdict_eq_error_iff, fun text h => ?_,
    fun text spec hv => ?_⟩
  · obtain ⟨e, he⟩ := (target_or_fault text).resolve_left h
    refine ⟨e, he, fun e' he' => ?_⟩
    have heq := (verdict_of_fault he').symm.trans (verdict_of_fault he)
    cases heq
    rfl
  · exact (verdict_eq_error_iff.1 hv).problem_ne_empty rfl

end Spec

end LooseTypes
