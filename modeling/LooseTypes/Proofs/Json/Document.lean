import LooseTypes.Proofs.Json.Lexer

/-!
# Documents and their tokens

A proof about every document goes by induction with a hypothesis for each item and each member of
an array or object (`inductionOn`). The depth of items or members is bounded if each of them is
(`itemsDepth_le_iff`, `membersDepth_le_iff`), so their order does not matter. The tokens of a
document can be written with nothing between them (`spaced_tokens`), and if other numbers are read
from them, they are the tokens of the document with these numbers (`tokens_mapRanks`).
-/

namespace LooseTypes.Json

@[elab_as_elim, induction_eliminator]
theorem inductionOn {motive : Json → Prop} (null : motive .null) (bool : ∀ b, motive (.bool b))
    (int : ∀ n, motive (.int n)) (float : ∀ negative rank, motive (.float negative rank))
    (str : ∀ s, motive (.str s)) (array : ∀ items, (∀ j ∈ items, motive j) → motive (.array items))
    (object : ∀ members, (∀ m ∈ members, motive m.2) → motive (.object members)) (j : Json) :
    motive j :=
  match j with
  | .null => null
  | .bool b => bool b
  | .int n => int n
  | .float negative rank => float negative rank
  | .str s => str s
  | .array items => array items fun j _ => inductionOn null bool int float str array object j
  | .object members =>
    object members fun (_, j) _ => inductionOn null bool int float str array object j
termination_by j
decreasing_by
  · decreasing_tactic
  · have hm := List.sizeOf_lt_of_mem (by assumption)
    rw [Prod.mk.sizeOf_spec] at hm
    rw [Json.object.sizeOf_spec]
    omega

/-! ## Depth -/

theorem itemsDepth_le_iff {items : List Json} {n : Nat} :
    itemsDepth items ≤ n ↔ ∀ j ∈ items, j.depth ≤ n := by
  induction items with
  | nil => simp [itemsDepth]
  | cons j items ih => rw [itemsDepth, Nat.max_le, ih, List.forall_mem_cons]

theorem membersDepth_le_iff {members : List (String × Json)} {n : Nat} :
    membersDepth members ≤ n ↔ ∀ m ∈ members, m.2.depth ≤ n := by
  induction members with
  | nil => simp [membersDepth]
  | cons m members ih =>
    obtain ⟨name, j⟩ := m
    rw [membersDepth, Nat.max_le, ih, List.forall_mem_cons]

/-! ## Tokens next to each other -/

theorem spaced_append_cons {tokens more : List Token} {t : Token} (h : Spaced tokens)
    (ht : t.isSeparator = true) (hmore : Spaced (t :: more)) : Spaced (tokens ++ t :: more) := by
  refine List.IsChain.append h hmore fun last _ next hnext => ?_
  cases hnext
  exact .inr ht

theorem spaced_cons {tokens : List Token} {t : Token} (ht : t.isClosed = true) (h : Spaced tokens) :
    Spaced (t :: tokens) :=
  spaced_cons_iff.2 ⟨fun _ _ => .inl ht, h⟩

theorem spaced_itemTokens {items : List Json} (h : ∀ j ∈ items, Spaced j.tokens) :
    Spaced (itemTokens items) := by
  induction items with
  | nil => exact .nil
  | cons j items ih =>
    have hj := h j List.mem_cons_self
    have hitems := ih fun other hother => h other (List.mem_cons_of_mem j hother)
    cases items with
    | nil => exact hj
    | cons next items => exact spaced_append_cons hj rfl (spaced_cons rfl hitems)

theorem spaced_memberTokens {members : List (String × Json)} (h : ∀ m ∈ members, Spaced m.2.tokens) :
    Spaced (memberTokens members) := by
  induction members with
  | nil => exact .nil
  | cons m members ih =>
    have hm := h m List.mem_cons_self
    have hmembers := ih fun other hother => h other (List.mem_cons_of_mem m hother)
    cases members with
    | nil => exact spaced_cons rfl (spaced_cons rfl hm)
    | cons next members =>
      exact spaced_cons rfl (spaced_cons rfl (spaced_append_cons hm rfl (spaced_cons rfl hmembers)))

theorem spaced_tokens (j : Json) : Spaced j.tokens := by
  induction j with
  | null | bool | int | float | str => exact .singleton _
  | array items ih =>
    exact spaced_cons rfl (spaced_append_cons (spaced_itemTokens ih) rfl (.singleton _))
  | object members ih =>
    exact spaced_cons rfl (spaced_append_cons (spaced_memberTokens ih) rfl (.singleton _))

/-! ## Other numbers in a document -/

section MapRanks

variable (f : Fin Binary64.rankLimit → Fin Binary64.rankLimit)

mutual

/-- The document with another rank in place of that of each number. -/
def mapRanks : Json → Json
  | .float negative rank => .float negative (f rank)
  | .array items => .array (mapRanksItems items)
  | .object members => .object (mapRanksMembers members)
  | .null => .null
  | .bool b => .bool b
  | .int n => .int n
  | .str s => .str s

def mapRanksItems : List Json → List Json
  | [] => []
  | j :: items => j.mapRanks :: mapRanksItems items

def mapRanksMembers : List (String × Json) → List (String × Json)
  | [] => []
  | (name, j) :: members => (name, j.mapRanks) :: mapRanksMembers members

end

theorem mapRanksItems_eq_map (items : List Json) :
    mapRanksItems f items = items.map (mapRanks f) := by
  induction items with
  | nil => rfl
  | cons j items ih => rw [mapRanksItems, ih, List.map_cons]

theorem mapRanksMembers_eq_map (members : List (String × Json)) :
    mapRanksMembers f members = members.map fun m => (m.1, m.2.mapRanks f) := by
  induction members with
  | nil => rfl
  | cons m members ih =>
    obtain ⟨name, j⟩ := m
    rw [mapRanksMembers, ih, List.map_cons]

theorem depth_mapRanks (j : Json) : (j.mapRanks f).depth = j.depth := by
  induction j with
  | null | bool | int | float | str => rfl
  | array items ih =>
    rw [mapRanks, depth, depth]
    congr 1
    induction items with
    | nil => rfl
    | cons j items ihItems =>
      rw [mapRanksItems, itemsDepth, itemsDepth, ih j List.mem_cons_self,
        ihItems fun other hother => ih other (List.mem_cons_of_mem j hother)]
  | object members ih =>
    rw [mapRanks, depth, depth]
    congr 1
    induction members with
    | nil => rfl
    | cons m members ihMembers =>
      rw [mapRanksMembers, membersDepth, membersDepth, ih m List.mem_cons_self,
        ihMembers fun other hother => ih other (List.mem_cons_of_mem m hother)]

theorem itemTokens_cons_cons (j next : Json) (items : List Json) :
    itemTokens (j :: next :: items) = j.tokens ++ .comma :: itemTokens (next :: items) := by
  rw [itemTokens]
  exact List.cons_ne_nil _ _

theorem memberTokens_cons_cons (name : String) (j : Json) (next : String × Json)
    (members : List (String × Json)) :
    memberTokens ((name, j) :: next :: members) =
      .str name :: .colon :: (j.tokens ++ .comma :: memberTokens (next :: members)) := by
  rw [memberTokens]
  exact List.cons_ne_nil _ _

theorem itemTokens_mapRanks {items : List Json}
    (h : ∀ j ∈ items, (j.mapRanks f).tokens = j.tokens.map (Token.mapRanks f)) :
    itemTokens (mapRanksItems f items) = (itemTokens items).map (Token.mapRanks f) := by
  induction items with
  | nil => rfl
  | cons j items ih =>
    have hj := h j List.mem_cons_self
    have hitems := ih fun other hother => h other (List.mem_cons_of_mem j hother)
    cases items with
    | nil => exact hj
    | cons next items =>
      rw [mapRanksItems] at hitems ⊢
      rw [mapRanksItems, itemTokens_cons_cons, itemTokens_cons_cons, hj, hitems, List.map_append]
      rfl

theorem memberTokens_mapRanks {members : List (String × Json)}
    (h : ∀ m ∈ members, (m.2.mapRanks f).tokens = m.2.tokens.map (Token.mapRanks f)) :
    memberTokens (mapRanksMembers f members) = (memberTokens members).map (Token.mapRanks f) := by
  induction members with
  | nil => rfl
  | cons m members ih =>
    obtain ⟨name, j⟩ := m
    have hj : (j.mapRanks f).tokens = j.tokens.map (Token.mapRanks f) :=
      h (name, j) List.mem_cons_self
    have hmembers := ih fun other hother => h other (List.mem_cons_of_mem _ hother)
    cases members with
    | nil => exact congrArg (fun tokens => Token.str name :: .colon :: tokens) hj
    | cons next members =>
      rw [mapRanksMembers] at hmembers ⊢
      rw [mapRanksMembers, memberTokens_cons_cons, memberTokens_cons_cons, hj, hmembers, List.map_cons,
        List.map_cons, List.map_append]
      rfl

/-- Only the tokens of the numbers are others. -/
theorem tokens_mapRanks (j : Json) : (j.mapRanks f).tokens = j.tokens.map (Token.mapRanks f) := by
  induction j with
  | null | bool | int | float | str => rfl
  | array items ih =>
    rw [mapRanks, tokens, tokens, itemTokens_mapRanks f ih, List.map_cons, List.map_append]
    rfl
  | object members ih =>
    rw [mapRanks, tokens, tokens, memberTokens_mapRanks f ih, List.map_cons, List.map_append]
    rfl

end MapRanks

end LooseTypes.Json
