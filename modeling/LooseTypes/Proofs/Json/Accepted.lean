import LooseTypes.Proofs.Json.Reader

/-!
# Accepted texts

The machine accepts the tokens of a document that is not too deep, and no others
(`parse?_eq_some_iff`): whatever state it is in, the tokens that led there can be read off the state
(`State.taken_foldlM_step`). So an accepted text begins with a brace if it is an object
(`exists_of_parse?_object`), and it is at least as long as the document has items or members
(`length_items_le`, `length_members_le`).
-/

namespace LooseTypes.Json

/-! ## The tokens that led to a state -/

theorem itemTokens_concat (items : List Json) (j : Json) :
    itemTokens (items ++ [j]) = items.flatMap (fun item => item.tokens ++ [.comma]) ++ j.tokens := by
  induction items with
  | nil => rfl
  | cons first items ih =>
    rw [List.flatMap_cons, List.append_assoc, ← ih]
    cases items <;> simp [itemTokens]

def memberThenComma (member : String × Json) : List Token :=
  .str member.1 :: .colon :: (member.2.tokens ++ [.comma])

theorem memberTokens_concat (members : List (String × Json)) (name : String) (j : Json) :
    memberTokens (members ++ [(name, j)]) =
      members.flatMap memberThenComma ++ .str name :: .colon :: j.tokens := by
  induction members with
  | nil => rfl
  | cons first members ih =>
    obtain ⟨other, k⟩ := first
    rw [List.flatMap_cons, List.append_assoc, ← ih]
    cases members <;> simp [memberTokens, memberThenComma]

/-- The tokens from the opening of a frame to where a document is due in it. -/
def Frame.taken : Frame → List Token
  | .array items => .openArray :: items.reverse.flatMap fun j => j.tokens ++ [.comma]
  | .object members name =>
    .openObject :: (members.reverse.flatMap memberThenComma ++ [.str name, .colon])

/-- The tokens of all open frames, the outermost first. -/
def stackTaken : List Frame → List Token
  | [] => []
  | frame :: stack => stackTaken stack ++ frame.taken

namespace State

/-- The tokens that led to a state. -/
def taken : State → List Token
  | .value stack => stackTaken stack
  | .firstItem stack => stackTaken stack ++ [.openArray]
  | .afterItem items stack => stackTaken stack ++ .openArray :: itemTokens items.reverse
  | .firstName stack => stackTaken stack ++ [.openObject]
  | .nextName members stack =>
    stackTaken stack ++ .openObject :: members.reverse.flatMap memberThenComma
  | .colon members name stack =>
    stackTaken stack ++ .openObject :: (members.reverse.flatMap memberThenComma ++ [.str name])
  | .afterMember members stack => stackTaken stack ++ .openObject :: memberTokens members.reverse
  | .done j => j.tokens

/-- After an item there is one, and after a member too. -/
def IsProper : State → Prop
  | .afterItem items _ => items ≠ []
  | .afterMember members _ => members ≠ []
  | _ => True

theorem taken_put (j : Json) (stack : List Frame) :
    (put j stack).taken = stackTaken stack ++ j.tokens ∧ (put j stack).IsProper := by
  cases stack with
  | nil => exact ⟨rfl, trivial⟩
  | cons frame stack =>
    cases frame with
    | array items =>
      refine ⟨?_, List.cons_ne_nil _ _⟩
      simp [put, taken, stackTaken, Frame.taken, itemTokens_concat]
    | object members name =>
      refine ⟨?_, List.cons_ne_nil _ _⟩
      simp [put, taken, stackTaken, Frame.taken, memberTokens_concat]

theorem taken_begin {stack : List Frame} {t : Token} {s : State} (h : begin stack t = some s) :
    s.taken = stackTaken stack ++ [t] ∧ s.IsProper := by
  unfold begin at h
  split at h
  case h_6 | h_7 =>
    split at h
    next =>
      cases h
      exact ⟨rfl, trivial⟩
    next => cases h
  case h_8 | h_9 | h_10 | h_11 => cases h
  all_goals
    cases h
    exact taken_put _ stack

theorem taken_step {s s' : State} {t : Token} (h : s.IsProper) (hs : step s t = some s') :
    s'.taken = s.taken ++ [t] ∧ s'.IsProper := by
  cases s with
  | value stack => exact taken_begin hs
  | firstItem stack =>
    by_cases ht : t = .closeArray
    · subst ht
      cases hs
      obtain ⟨htaken, hproper⟩ := taken_put (.array []) stack
      refine ⟨?_, hproper⟩
      rw [htaken]
      simp [taken, tokens, itemTokens]
    · rw [step_firstItem stack ht] at hs
      obtain ⟨htaken, hproper⟩ := taken_begin hs
      refine ⟨?_, hproper⟩
      rw [htaken]
      simp [taken, stackTaken, Frame.taken]
  | afterItem items stack =>
    cases t <;> cases hs
    · obtain ⟨htaken, hproper⟩ := taken_put (.array items.reverse) stack
      refine ⟨?_, hproper⟩
      rw [htaken]
      simp [taken, tokens]
    · obtain ⟨j, items, rfl⟩ := List.exists_cons_of_ne_nil h
      refine ⟨?_, trivial⟩
      simp [taken, stackTaken, Frame.taken, itemTokens_concat]
  | firstName stack =>
    cases t <;> cases hs
    · obtain ⟨htaken, hproper⟩ := taken_put (.object []) stack
      refine ⟨?_, hproper⟩
      rw [htaken]
      simp [taken, tokens, memberTokens]
    · exact ⟨by simp [taken], trivial⟩
  | nextName members stack =>
    cases t <;> cases hs
    exact ⟨by simp [taken], trivial⟩
  | colon members name stack =>
    cases t <;> cases hs
    exact ⟨by simp [taken, stackTaken, Frame.taken], trivial⟩
  | afterMember members stack =>
    cases t <;> cases hs
    · obtain ⟨htaken, hproper⟩ := taken_put (.object members.reverse) stack
      refine ⟨?_, hproper⟩
      rw [htaken]
      simp [taken, tokens]
    · obtain ⟨⟨name, j⟩, members, rfl⟩ := List.exists_cons_of_ne_nil h
      refine ⟨?_, trivial⟩
      simp [taken, memberTokens_concat, memberThenComma]
  | done j => cases t <;> cases hs

theorem taken_foldlM_step {s s' : State} {tokens : List Token} (h : s.IsProper)
    (hs : tokens.foldlM step s = some s') : s'.taken = s.taken ++ tokens := by
  induction tokens generalizing s with
  | nil =>
    cases hs
    rw [List.append_nil]
  | cons t tokens ih =>
    rw [List.foldlM_cons, Option.bind_eq_bind, Option.bind_eq_some_iff] at hs
    obtain ⟨next, hnext, hrest⟩ := hs
    obtain ⟨htaken, hproper⟩ := taken_step h hnext
    rw [ih hproper hrest, htaken, List.append_assoc, List.singleton_append]

end State

/-! ## What the machine accepts -/

theorem tokens_eq_of_ofTokens? {tokens : List Token} {j : Json} (h : ofTokens? tokens = some j) :
    tokens = j.tokens := by
  obtain ⟨s, hs, hresult⟩ := Option.bind_eq_some_iff.1 h
  have htaken : s.taken = tokens := State.taken_foldlM_step (s := .value []) trivial hs
  cases s with
  | done j' =>
    cases hresult
    exact htaken.symm
  | _ => cases hresult

theorem tokens?_of_parse? {text : String} {j : Json} (h : parse? text = some j) :
    tokens? text.toList = some j.tokens := by
  obtain ⟨tokens, htokens, hj⟩ := Option.bind_eq_some_iff.1 h
  rw [htokens, tokens_eq_of_ofTokens? hj]

theorem parse?_eq_some_iff {text : String} {j : Json} :
    parse? text = some j ↔ tokens? text.toList = some j.tokens ∧ j.depth ≤ maxDepth := by
  constructor
  · exact fun h => ⟨tokens?_of_parse? h, depth_of_parse? h⟩
  · rintro ⟨htokens, hdepth⟩
    rw [parse?, htokens, Option.bind_some, ofTokens?_tokens hdepth]

/-! ## The length of a text -/

theorem length_tokens?_le {text : List Char} {tokens : List Token}
    (h : tokens? text = some tokens) : tokens.length ≤ text.length := by
  induction tokens generalizing text with
  | nil => exact Nat.zero_le _
  | cons t tokens ih =>
    rw [tokens?] at h
    split at h
    next => cases h
    next c cs hcs =>
      split at h
      next => cases h
      next t' rest ht =>
        obtain ⟨more, hmore, he⟩ := Option.map_eq_some_iff.1 h
        cases he
        have hrest := ih hmore
        have htoken := length_of_token? ht
        have hdrop := length_dropWhile_le isBlank text
        rw [hcs] at hdrop
        rw [List.length_cons]
        omega

theorem length_le_itemTokens (items : List Json) : items.length ≤ (itemTokens items).length := by
  induction items with
  | nil => exact Nat.zero_le _
  | cons j items ih =>
    obtain ⟨t, rest, htokens, -⟩ := exists_tokens_eq_cons j
    cases items with
    | nil => simp [itemTokens, htokens]
    | cons next items =>
      simp only [itemTokens, htokens, List.length_append, List.length_cons] at ih ⊢
      omega

theorem length_le_memberTokens (members : List (String × Json)) :
    members.length ≤ (memberTokens members).length := by
  induction members with
  | nil => exact Nat.zero_le _
  | cons first members ih =>
    obtain ⟨name, j⟩ := first
    cases members with
    | nil => simp [memberTokens]
    | cons next members =>
      simp only [memberTokens, List.length_append, List.length_cons] at ih ⊢
      omega

theorem length_items_le {text : String} {items : List Json}
    (h : parse? text = some (.array items)) : items.length ≤ text.length := by
  have htext := length_tokens?_le (tokens?_of_parse? h)
  have hitems := length_le_itemTokens items
  simp only [tokens, List.length_cons, List.length_append] at htext
  rw [← String.length_toList]
  omega

theorem length_members_le {text : String} {members : List (String × Json)}
    (h : parse? text = some (.object members)) : members.length ≤ text.length := by
  have htext := length_tokens?_le (tokens?_of_parse? h)
  have hmembers := length_le_memberTokens members
  simp only [tokens, List.length_cons, List.length_append] at htext
  rw [← String.length_toList]
  omega

/-! ## The first character of an object -/

theorem ne_openObject_of_float? {negative : Bool} {c : Nat} {e : Int} {t : Token}
    (h : float? negative c e = some t) : t ≠ .openObject := by
  unfold float? at h
  split at h
  next =>
    cases h
    exact Token.noConfusion
  next => cases h

theorem ne_openObject_of_integer? {negative : Bool} {c counted : Nat} {t : Token}
    (h : integer? negative c counted = some t) : t ≠ .openObject := by
  simp only [integer?] at h
  split at h
  next =>
    split at h
    next =>
      cases h
      exact Token.noConfusion
    next => exact ne_openObject_of_float? h
  next => exact ne_openObject_of_float? h

theorem ne_openObject_of_number? {text : List Char} {t : Token} (h : number? text = some t) :
    t ≠ .openObject := by
  obtain ⟨p, -, h⟩ := Option.bind_eq_some_iff.1 h
  unfold Parts.token? at h
  split at h
  next => exact ne_openObject_of_integer? h
  next => exact ne_openObject_of_float? h

theorem eq_brace_of_mark? {c : Char} (h : mark? c = some .openObject) : c = '\x7b' := by
  unfold mark? at h
  split at h
  case h_3 => rfl
  all_goals cases h

/-- Only a brace opens an object. -/
theorem eq_brace_of_token? {c : Char} {cs rest : List Char}
    (h : token? (c :: cs) = some (.openObject, rest)) : c = '\x7b' := by
  unfold token? at h
  simp only at h
  split at h
  next =>
    obtain ⟨_, -, h⟩ := Option.bind_eq_some_iff.1 h
    obtain ⟨_, -, h⟩ := Option.bind_eq_some_iff.1 h
    cases h
  next =>
    split at h
    next =>
      obtain ⟨t, ht, he⟩ := Option.map_eq_some_iff.1 h
      cases he
      exact absurd rfl (ne_openObject_of_number? ht)
    next =>
      split at h
      next =>
        obtain ⟨t, ht, he⟩ := Option.map_eq_some_iff.1 h
        cases he
        have hword := List.mem_of_find?_eq_some ht
        simp at hword
      next =>
        obtain ⟨t, ht, he⟩ := Option.map_eq_some_iff.1 h
        cases he
        exact eq_brace_of_mark? ht

theorem exists_of_parse?_object {text : String} {members : List (String × Json)}
    (h : parse? text = some (.object members)) :
    ∃ rest, text.toList.dropWhile isBlank = '\x7b' :: rest := by
  have htokens := tokens?_of_parse? h
  rw [tokens?] at htokens
  split at htokens
  next => cases htokens
  next c cs hcs =>
    split at htokens
    next => cases htokens
    next t rest ht =>
      obtain ⟨more, -, he⟩ := Option.map_eq_some_iff.1 htokens
      obtain ⟨rfl, -⟩ := List.cons.inj he
      rw [hcs, eq_brace_of_token? ht]
      exact ⟨cs, rfl⟩

end LooseTypes.Json
