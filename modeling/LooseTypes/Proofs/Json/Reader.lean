import LooseTypes.Json.Reader
import LooseTypes.Proofs.Json.Document

/-!
# Documents are read from their texts

The compact text of a document that is not too deep is read as this document, with each of its
floating-point numbers read from its written form (`parse?_render`), and it is the text of no other
one (`render_inj`). No text is read as a document that is too deep (`depth_of_parse?`). What the
machine does with the tokens of a document is stated for every stack and every rest of the input
(`foldlM_step_tokens`).
-/

namespace LooseTypes.Json

/-! ## The machine on the tokens of a document -/

open State

theorem step_firstItem (stack : List Frame) {t : Token} (h : t ≠ .closeArray) :
    step (.firstItem stack) t = step (.value (.array [] :: stack)) t := by
  cases t <;> first | rfl | exact absurd rfl h

theorem exists_tokens_eq_cons (j : Json) : ∃ t rest, j.tokens = t :: rest ∧ t ≠ .closeArray := by
  cases j <;> exact ⟨_, _, rfl, Token.noConfusion⟩

theorem exists_itemTokens_eq_cons (j : Json) (items : List Json) :
    ∃ t rest, itemTokens (j :: items) = t :: rest ∧ t ≠ .closeArray := by
  obtain ⟨t, rest, htokens, ht⟩ := exists_tokens_eq_cons j
  cases items with
  | nil => exact ⟨t, rest, htokens, ht⟩
  | cons next items => exact ⟨t, _, by rw [itemTokens, htokens, List.cons_append]; simp, ht⟩

theorem foldlM_step_cons {s s' : State} {t : Token} (h : step s t = some s') (rest : List Token) :
    (t :: rest).foldlM step s = rest.foldlM step s' := by
  rw [List.foldlM_cons, h]
  rfl

/-- The machine takes the tokens of a document as one. -/
def Taken (j : Json) : Prop :=
  ∀ stack rest, stack.length + j.depth ≤ maxDepth →
    (j.tokens ++ rest).foldlM step (.value stack) = rest.foldlM step (put j stack)

theorem foldlM_step_itemTokens {items : List Json} (hne : items ≠ []) (h : ∀ j ∈ items, Taken j)
    {stack : List Frame} (hdepth : stack.length + (itemsDepth items + 1) ≤ maxDepth)
    (before : List Json) (rest : List Token) :
    (itemTokens items ++ .closeArray :: rest).foldlM step (.value (.array before :: stack)) =
      rest.foldlM step (put (.array (before.reverse ++ items)) stack) := by
  induction items generalizing before with
  | nil => exact absurd rfl hne
  | cons j items ih =>
    rw [itemsDepth] at hdepth
    have hj : (Frame.array before :: stack).length + j.depth ≤ maxDepth := by
      rw [List.length_cons]
      omega
    have hlist : before.reverse ++ j :: items = (j :: before).reverse ++ items := by simp
    rw [hlist]
    cases items with
    | nil =>
      rw [itemTokens, h j List.mem_cons_self _ _ hj, List.append_nil]
      exact foldlM_step_cons rfl rest
    | cons next items =>
      have hitems := ih (by simp) (fun other hother => h other (List.mem_cons_of_mem j hother))
        (by omega) (j :: before)
      rw [itemTokens, List.append_assoc, h j List.mem_cons_self _ _ hj, ← hitems]
      · exact foldlM_step_cons rfl _
      · simp

theorem foldlM_step_memberTokens {members : List (String × Json)} (hne : members ≠ [])
    (h : ∀ m ∈ members, Taken m.2) {stack : List Frame}
    (hdepth : stack.length + (membersDepth members + 1) ≤ maxDepth)
    (before : List (String × Json)) (rest : List Token) {s : State}
    (hs : ∀ name, step s (.str name) = some (.colon before name stack)) :
    (memberTokens members ++ .closeObject :: rest).foldlM step s =
      rest.foldlM step (put (.object (before.reverse ++ members)) stack) := by
  induction members generalizing before s with
  | nil => exact absurd rfl hne
  | cons m members ih =>
    obtain ⟨name, j⟩ := m
    rw [membersDepth] at hdepth
    have hj : (Frame.object before name :: stack).length + j.depth ≤ maxDepth := by
      rw [List.length_cons]
      omega
    have hlist : before.reverse ++ (name, j) :: members =
        ((name, j) :: before).reverse ++ members := by simp
    have hname : ∀ more, (.str name :: .colon :: (j.tokens ++ more)).foldlM step s =
        more.foldlM step (.afterMember ((name, j) :: before) stack) := by
      intro more
      rw [foldlM_step_cons (hs name), foldlM_step_cons rfl]
      exact h (name, j) List.mem_cons_self _ _ hj
    rw [hlist]
    cases members with
    | nil =>
      rw [memberTokens, List.cons_append, List.cons_append, hname, List.append_nil]
      exact foldlM_step_cons rfl rest
    | cons next members =>
      have hmembers := ih (s := .nextName ((name, j) :: before) stack) (by simp)
        (fun other hother => h other (List.mem_cons_of_mem (name, j) hother)) (by omega)
        ((name, j) :: before) fun _ => rfl
      rw [memberTokens, List.cons_append, List.cons_append, List.append_assoc, hname, ← hmembers]
      · exact foldlM_step_cons rfl _
      · simp

theorem foldlM_step_tokens (j : Json) : Taken j := by
  induction j with
  | null | bool | int | float | str => exact fun stack rest _ => foldlM_step_cons rfl rest
  | array items ih =>
    intro stack rest hdepth
    rw [depth] at hdepth
    have hopen : step (.value stack) .openArray = some (.firstItem stack) :=
      if_pos (show stack.length < maxDepth by omega)
    rw [tokens, List.cons_append, foldlM_step_cons hopen, List.append_assoc]
    cases items with
    | nil => exact foldlM_step_cons rfl rest
    | cons first items =>
      have hitems := foldlM_step_itemTokens (by simp) ih hdepth [] rest
      obtain ⟨t, more, htokens, ht⟩ := exists_itemTokens_eq_cons first items
      rw [htokens, List.cons_append, List.foldlM_cons] at hitems ⊢
      rw [step_firstItem stack ht]
      exact hitems
  | object members ih =>
    intro stack rest hdepth
    rw [depth] at hdepth
    have hopen : step (.value stack) .openObject = some (.firstName stack) :=
      if_pos (show stack.length < maxDepth by omega)
    rw [tokens, List.cons_append, foldlM_step_cons hopen, List.append_assoc]
    cases members with
    | nil => exact foldlM_step_cons rfl rest
    | cons first members =>
      exact foldlM_step_memberTokens (by simp) ih hdepth [] rest fun _ => rfl

theorem ofTokens?_tokens {j : Json} (h : j.depth ≤ maxDepth) : ofTokens? j.tokens = some j := by
  have htaken := foldlM_step_tokens j [] [] (by simpa using h)
  rw [List.append_nil] at htaken
  rw [ofTokens?, htaken]
  rfl

theorem parse?_render {j : Json} (h : j.depth ≤ maxDepth) :
    parse? j.render = some (j.mapRanks rereadRank) := by
  rw [parse?, render, String.toList_ofList, tokens?_flatMap_text (spaced_tokens j), Option.bind_some,
    ← tokens_mapRanks, ofTokens?_tokens (by rwa [depth_mapRanks])]

/-- Numbers that are read as the same are told apart by their written forms. -/
theorem render_inj {j k : Json} (hj : j.depth ≤ maxDepth) (hk : k.depth ≤ maxDepth)
    (h : j.render = k.render) : j = k := by
  rw [render, render, String.ofList_inj] at h
  have htokens := ofTokens?_tokens hj
  rw [flatMap_text_inj (spaced_tokens j) (spaced_tokens k) h, ofTokens?_tokens hk] at htokens
  exact (Option.some.inj htokens).symm

/-! ## The depth of what is read -/

/-- What is open and what stands in it is not too deep. -/
def Shallow : List Frame → Prop
  | [] => True
  | .array items :: stack => itemsDepth items + (stack.length + 1) ≤ maxDepth ∧ Shallow stack
  | .object members _ :: stack =>
    membersDepth members + (stack.length + 1) ≤ maxDepth ∧ Shallow stack

def State.IsShallow : State → Prop
  | .value stack => Shallow stack
  | .firstItem stack => Shallow (.array [] :: stack)
  | .afterItem items stack => Shallow (.array items :: stack)
  | .firstName stack => Shallow (.object [] "" :: stack)
  | .nextName members stack => Shallow (.object members "" :: stack)
  | .colon members name stack => Shallow (.object members name :: stack)
  | .afterMember members stack => Shallow (.object members "" :: stack)
  | .done j => j.depth ≤ maxDepth

theorem itemsDepth_reverse (items : List Json) : itemsDepth items.reverse = itemsDepth items := by
  refine Nat.le_antisymm ?_ ?_ <;>
  · rw [itemsDepth_le_iff]
    intro j hj
    exact itemsDepth_le_iff.1 (Nat.le_refl _) j (by simpa using hj)

theorem membersDepth_reverse (members : List (String × Json)) :
    membersDepth members.reverse = membersDepth members := by
  refine Nat.le_antisymm ?_ ?_ <;>
  · rw [membersDepth_le_iff]
    intro m hm
    exact membersDepth_le_iff.1 (Nat.le_refl _) m (by simpa using hm)

theorem isShallow_put {j : Json} {stack : List Frame} (h : Shallow stack)
    (hj : j.depth + stack.length ≤ maxDepth) : (put j stack).IsShallow := by
  cases stack with
  | nil => exact hj
  | cons frame stack =>
    cases frame with
    | array items =>
      refine ⟨?_, h.2⟩
      have := h.1
      rw [List.length_cons] at hj
      rw [itemsDepth]
      omega
    | object members name =>
      refine ⟨?_, h.2⟩
      have := h.1
      rw [List.length_cons] at hj
      rw [membersDepth]
      omega

theorem Shallow.length_le {stack : List Frame} (h : Shallow stack) : stack.length ≤ maxDepth := by
  cases stack with
  | nil => exact Nat.zero_le _
  | cons frame stack =>
    have hframe : stack.length + 1 ≤ maxDepth := by
      cases frame with
      | array items => exact Nat.le_trans (Nat.le_add_left ..) h.1
      | object members name => exact Nat.le_trans (Nat.le_add_left ..) h.1
    exact hframe

theorem isShallow_begin {stack : List Frame} {t : Token} {s : State} (h : Shallow stack)
    (hs : begin stack t = some s) : s.IsShallow := by
  unfold begin at hs
  split at hs
  case h_6 | h_7 =>
    split at hs
    next hlength =>
      cases hs
      exact ⟨by simpa [itemsDepth, membersDepth] using Nat.succ_le_of_lt hlength, h⟩
    next => cases hs
  case h_8 | h_9 | h_10 | h_11 => cases hs
  all_goals
    cases hs
    exact isShallow_put h (by simpa [depth] using h.length_le)

theorem isShallow_array {items : List Json} {stack : List Frame}
    (h : Shallow (.array items :: stack)) : (put (.array items.reverse) stack).IsShallow := by
  refine isShallow_put h.2 ?_
  have := h.1
  rw [depth, itemsDepth_reverse]
  omega

theorem isShallow_object {members : List (String × Json)} {stack : List Frame}
    (h : Shallow (.object members "" :: stack)) :
    (put (.object members.reverse) stack).IsShallow := by
  refine isShallow_put h.2 ?_
  have := h.1
  rw [depth, membersDepth_reverse]
  omega

theorem isShallow_step {s s' : State} {t : Token} (h : s.IsShallow) (hs : step s t = some s') :
    s'.IsShallow := by
  cases s with
  | value stack => exact isShallow_begin h hs
  | firstItem stack =>
    by_cases ht : t = .closeArray
    · subst ht
      cases hs
      exact isShallow_array h
    · rw [step_firstItem stack ht] at hs
      exact isShallow_begin h hs
  | afterItem items stack =>
    cases t <;> cases hs
    · exact isShallow_array h
    · exact h
  | firstName stack =>
    cases t <;> cases hs
    · exact isShallow_object h
    · exact h
  | nextName members stack =>
    cases t <;> cases hs
    exact h
  | colon members name stack =>
    cases t <;> cases hs
    exact h
  | afterMember members stack =>
    cases t <;> cases hs
    · exact isShallow_object h
    · exact h
  | done j => cases t <;> cases hs

theorem isShallow_foldlM_step {s s' : State} {tokens : List Token} (h : s.IsShallow)
    (hs : tokens.foldlM step s = some s') : s'.IsShallow := by
  induction tokens generalizing s with
  | nil =>
    cases hs
    exact h
  | cons t tokens ih =>
    rw [List.foldlM_cons, Option.bind_eq_bind, Option.bind_eq_some_iff] at hs
    obtain ⟨next, hnext, hrest⟩ := hs
    exact ih (isShallow_step h hnext) hrest

theorem depth_of_parse? {text : String} {j : Json} (h : parse? text = some j) :
    j.depth ≤ maxDepth := by
  obtain ⟨tokens, -, htokens⟩ := Option.bind_eq_some_iff.1 h
  obtain ⟨s, hs, hresult⟩ := Option.bind_eq_some_iff.1 htokens
  have hshallow : s.IsShallow := isShallow_foldlM_step (s := .value []) trivial hs
  cases s with
  | done j' =>
    cases hresult
    exact hshallow
  | _ => cases hresult

end LooseTypes.Json
