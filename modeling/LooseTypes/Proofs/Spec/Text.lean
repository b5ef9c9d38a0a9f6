import LooseTypes.Proofs.Spec.Tokens

/-!
# Specs and their texts

Splitting a text and joining tokens are inverse to each other as long as no token has a point in it
(`specTokens_eq_iff`), so a text is read as a spec just if it is the text of this spec and the points
in it are those between the tokens (`Spec.parse_eq_ok_iff`). The text of the modifiers is what stands
after the first point (`Spec.modifierText?_eq_some_iff`): an empty one after a point at the end, and
none without a point.
-/

namespace LooseTypes

/-! ## The first point -/

theorem not_pointFree_append (head rest : String) : ¬PointFree (head ++ "." ++ rest) := by
  simp [PointFree]

/-- A text falls apart at its first point in one way. -/
theorem append_inj_of_pointFree {head head' rest rest' : String} (h : PointFree head)
    (h' : PointFree head') (heq : head ++ "." ++ rest = head' ++ "." ++ rest') : rest = rest' := by
  have hhead : head = head' := by rw [← firstToken_append h rest, heq, firstToken_append h' rest']
  rw [hhead] at heq
  exact (String.append_right_inj _).1 heq

/-! ## Splitting and joining -/

theorem pointFree_of_mem_specTokens (text : String) : ∀ token ∈ specTokens text, PointFree token := by
  rcases pointFree_or_append text with h | ⟨rest, htext⟩
  · rw [specTokens_of_pointFree h]
    exact List.forall_mem_singleton.2 h
  · have hdec : rest.length < text.length := by
      rw [htext, String.length_append, String.length_append]
      exact Nat.lt_add_of_pos_left (Nat.add_pos_right _ (by decide))
    have htokens : specTokens text = firstToken text :: specTokens rest := by
      conv => lhs; rw [htext]
      exact specTokens_append (pointFree_firstToken text) rest
    rw [htokens]
    exact List.forall_mem_cons.2 ⟨pointFree_firstToken text, pointFree_of_mem_specTokens rest⟩
termination_by text.length

theorem specTokens_joinTokens {tokens : List String} (h : ∀ token ∈ tokens, PointFree token)
    (hne : tokens ≠ []) : specTokens (joinTokens tokens) = tokens := by
  have hpoints : ∀ token ∈ tokens.map String.toList, '.' ∉ token := List.forall_mem_map.2 h
  have hsplit := List.splitOn_intercalate '.' hpoints (mt List.map_eq_nil_iff.1 hne)
  rw [specTokens, joinTokens, String.toList_intercalate, show ".".toList = ['.'] from rfl, hsplit,
    List.map_map]
  exact (List.map_congr_left fun token _ => String.ofList_toList).trans (List.map_id _)

theorem specTokens_eq_iff {text : String} {tokens : List String} (hne : tokens ≠ []) :
    specTokens text = tokens ↔ joinTokens tokens = text ∧ ∀ token ∈ tokens, PointFree token := by
  constructor
  · rintro rfl
    exact ⟨joinTokens_specTokens text, pointFree_of_mem_specTokens text⟩
  · rintro ⟨rfl, h⟩
    exact specTokens_joinTokens h hne

namespace Spec

variable {s : Spec}

/-! ## Reading what is written -/

theorem parse_eq_ok_iff_specTokens {t : String} :
    parse t = .ok s ↔ specTokens t = s.tag.name :: s.modifiers := by
  refine ⟨fun h => ?_, parse_of_specTokens s.tag⟩
  unfold parse at h
  split at h
  next => cases h
  next head rest htokens =>
    split at h
    next tag htag =>
      cases h
      rw [htokens, Tag.ofName?_eq_some_iff.1 htag]
    next => cases h

theorem parse_eq_ok_iff {t : String} :
    parse t = .ok s ↔ s.text = t ∧ ∀ token ∈ s.modifiers, PointFree token := by
  rw [parse_eq_ok_iff_specTokens, specTokens_eq_iff (List.cons_ne_nil _ _), List.forall_mem_cons,
    and_iff_right s.tag.pointFree_name, Spec.text]

/-! ## The text of the modifiers -/

theorem text_of_modifierText?_eq_none (h : s.modifierText? = none) : s.text = s.tag.name := by
  have hnil : s.modifiers = [] := by simpa [modifierText?] using h
  rw [text, hnil]
  rfl

theorem text_of_modifierText?_eq_some {rest : String} (h : s.modifierText? = some rest) :
    s.text = s.tag.name ++ "." ++ rest := by
  obtain ⟨hne, rfl⟩ : s.modifiers ≠ [] ∧ joinTokens s.modifiers = rest := by
    simpa [modifierText?] using h
  exact String.intercalate_cons_of_ne_nil hne

theorem modifierText?_eq_none_iff : s.modifierText? = none ↔ PointFree s.text := by
  constructor
  · intro h
    rw [text_of_modifierText?_eq_none h]
    exact s.tag.pointFree_name
  · intro h
    cases hrest : s.modifierText? with
    | none => rfl
    | some rest =>
      rw [text_of_modifierText?_eq_some hrest] at h
      exact absurd h (not_pointFree_append _ _)

theorem modifierText?_eq_some_iff {rest : String} :
    s.modifierText? = some rest ↔ ∃ head, PointFree head ∧ s.text = head ++ "." ++ rest := by
  constructor
  · exact fun h => ⟨s.tag.name, s.tag.pointFree_name, text_of_modifierText?_eq_some h⟩
  · rintro ⟨head, hhead, htext⟩
    cases hrest : s.modifierText? with
    | none =>
      rw [modifierText?_eq_none_iff, htext] at hrest
      exact absurd hrest (not_pointFree_append _ _)
    | some rest' =>
      rw [text_of_modifierText?_eq_some hrest] at htext
      rw [append_inj_of_pointFree s.tag.pointFree_name hhead htext]

/-! ## Reading and writing are inverse -/

/-- A spec that is read from a text is written as this text again: its type and its modifiers, which
have no points, joined by points; and what stands after the first point is the text of the modifiers.
A type and any tokens without points are read from their text. So specs that were read are the same
just if their texts are. -/
theorem parse_text_inverse :
    (∀ (t : String) (s : Spec), parse t = .ok s →
      joinTokens (s.tag.name :: s.modifiers) = t ∧ s.text = t ∧
      (∀ token ∈ s.modifiers, PointFree token) ∧
      (s.modifierText? = none ↔ PointFree t) ∧
      ∀ rest, s.modifierText? = some rest ↔ ∃ head, PointFree head ∧ t = head ++ "." ++ rest) ∧
    (∀ (tag : Tag) (tokens : List String), (∀ token ∈ tokens, PointFree token) →
      parse (joinTokens (tag.name :: tokens)) = .ok ⟨tag, tokens⟩) ∧
    ∀ (t t' : String) (s s' : Spec), parse t = .ok s → parse t' = .ok s' →
      (s = s' ↔ t = t') ∧ (s = s' ↔ s.text = s'.text) := by
  refine ⟨fun t s h => ?_, fun tag tokens h => parse_eq_ok_iff.2 ⟨rfl, h⟩, fun t t' s s' h h' => ?_⟩
  · obtain ⟨rfl, htokens⟩ := parse_eq_ok_iff.1 h
    exact ⟨rfl, rfl, htokens, modifierText?_eq_none_iff, fun rest => modifierText?_eq_some_iff⟩
  · obtain rfl : s.text = t := text_of_parse h
    obtain rfl : s'.text = t' := text_of_parse h'
    have heq : s = s' ↔ s.text = s'.text := by
      refine ⟨congrArg text, fun htext => ?_⟩
      rw [htext, h'] at h
      exact (Except.ok.inj h).symm
    exact ⟨heq, heq⟩

theorem parse_text_inverse_empty_tokens :
    (parse "array.string..trim." = .ok ⟨.array, ["string", "", "trim", ""]⟩ ∧
      (⟨.array, ["string", "", "trim", ""]⟩ : Spec).text = "array.string..trim." ∧
      (⟨.array, ["string", "", "trim", ""]⟩ : Spec).modifierText? = some "string..trim.") ∧
    (parse "int." = .ok ⟨.scalar .int, [""]⟩ ∧
      (⟨.scalar .int, [""]⟩ : Spec).modifierText? = some "") ∧
    (parse "int" = .ok ⟨.scalar .int, []⟩ ∧ (⟨.scalar .int, [""]⟩ : Spec) ≠ ⟨.scalar .int, []⟩) := by
  obtain ⟨hread, hwritten, hinj⟩ := parse_text_inverse
  have harray : parse "array.string..trim." = .ok ⟨.array, ["string", "", "trim", ""]⟩ :=
    hwritten .array ["string", "", "trim", ""] (by decide)
  have hpoint : parse "int." = .ok ⟨.scalar .int, [""]⟩ :=
    hwritten (.scalar .int) [""] (by decide)
  have hint : parse "int" = .ok ⟨.scalar .int, []⟩ := hwritten (.scalar .int) [] (by decide)
  obtain ⟨-, htext, -, -, hrest⟩ := hread _ _ harray
  obtain ⟨-, -, -, -, hempty⟩ := hread _ _ hpoint
  refine ⟨⟨harray, htext, (hrest _).2 ⟨"array", by decide, rfl⟩⟩,
    ⟨hpoint, (hempty _).2 ⟨"int", by decide, rfl⟩⟩, hint, ?_⟩
  exact mt (hinj _ _ _ _ hpoint hint).1.1 (by decide)

end Spec

end LooseTypes
