import LooseTypes.Proofs.Json.Reread
import Mathlib.Data.List.Chain

/-!
# Tokens are read from their written forms

The escapes of a string are undone one character at a time (`unescape?_escaped`). A token is read from
the start of its written form, whatever follows, as long as this does not go on with the number or
the word (`token?_text`); it is the token that was written, but for floating-point numbers. If of two
neighbours one shows where it begins or ends, tokens can be written with nothing between them
(`Spaced`): they are read one by one (`tokens?_flatMap_text`), and no other tokens have the same text
(`flatMap_text_inj`).
-/

namespace LooseTypes.Json

/-! ## Strings -/

theorem hexValue?_hexDigit : ∀ n < 16, hexValue? (hexDigit n) = some n := by decide

theorem hexDigit_ne : ∀ n < 16, hexDigit n ≠ '"' ∧ hexDigit n ≠ '\\' := by decide

theorem hexUnit?_hexDigit {n : Nat} (h : n < 256) :
    hexUnit? '0' '0' (hexDigit (n / 16)) (hexDigit (n % 16)) = some n := by
  have hzero : hexValue? '0' = some 0 := rfl
  simp only [hexUnit?, hzero, hexValue?_hexDigit (n / 16) (by omega),
    hexValue?_hexDigit (n % 16) (by omega)]
  show some ((0 * 16 + 0) * 256 + (n / 16 * 16 + n % 16)) = some n
  rw [Option.some.injEq]
  omega

/-- The escape of a control that has no letter for it. -/
theorem unescape?_control {c : Char} (h : c.toNat < 0x20) (rest : List Char) :
    unescape? ('\\' :: 'u' :: '0' :: '0' :: hexDigit (c.toNat / 16) :: hexDigit (c.toNat % 16) ::
      rest) = (unescape? rest).map (c :: ·) := by
  have hlow : isLowSurrogate c.toNat = false := by
    simp only [isLowSurrogate, Bool.and_eq_false_iff, decide_eq_false_iff_not]
    omega
  have hhigh : isHighSurrogate c.toNat = false := by
    simp only [isHighSurrogate, Bool.and_eq_false_iff, decide_eq_false_iff_not]
    omega
  rw [unescape?, hexUnit?_hexDigit (by omega), Option.bind_eq_bind, Option.bind_some,
    if_neg (by simp [hlow]), if_neg (by simp [hhigh]), Char.ofNat_toNat, bind_pure_comp,
    Option.map_eq_map]

theorem unescape?_short {letter c : Char} (hletter : letter ≠ 'u')
    (h : shortEscape? letter = some c) (rest : List Char) :
    unescape? ('\\' :: letter :: rest) = (unescape? rest).map (c :: ·) := by
  rw [unescape?.eq_def]
  split
  next he => cases he
  next he =>
    cases he
    exact absurd rfl hletter
  next he =>
    cases he
    rw [h, Option.bind_eq_bind, Option.bind_some, bind_pure_comp, Option.map_eq_map]
  next hshort he =>
    cases he
    exact absurd rfl (hshort letter rest rfl)

theorem unescape?_plain {c : Char} (hbackslash : c ≠ '\\') (h : ¬c.toNat < 0x20)
    (rest : List Char) : unescape? (c :: rest) = (unescape? rest).map (c :: ·) := by
  rw [unescape?.eq_def]
  split
  next he => cases he
  next he => exact absurd (List.cons.inj he).1 hbackslash
  next he => exact absurd (List.cons.inj he).1 hbackslash
  next he =>
    cases he
    rw [guard, if_pos (Nat.not_lt.1 h), Option.pure_def, Option.bind_eq_bind, Option.bind_some,
      bind_pure_comp, Option.map_eq_map]

theorem unescape?_escapedChar (c : Char) (rest : List Char) :
    unescape? (escapedChar c ++ rest) = (unescape? rest).map (c :: ·) := by
  unfold escapedChar
  split
  case h_8 hquote hbackslash _ _ _ _ _ =>
    split
    next h => exact unescape?_control h rest
    next h => exact unescape?_plain hbackslash h rest
  all_goals exact unescape?_short (by decide) rfl rest

/-- The escapes of a text are undone. -/
theorem unescape?_escaped (text : List Char) : unescape? (text.flatMap escapedChar) = some text := by
  induction text with
  | nil => rfl
  | cons c rest ih => rw [List.flatMap_cons, unescape?_escapedChar, ih, Option.map_some]

theorem splitString?_escape (c : Char) (rest : List Char) :
    splitString? ('\\' :: c :: rest) =
      (splitString? rest).map fun (body, rest) => ('\\' :: c :: body, rest) := rfl

theorem splitString?_plain {c : Char} (hquote : c ≠ '"') (hbackslash : c ≠ '\\')
    (rest : List Char) :
    splitString? (c :: rest) = (splitString? rest).map fun (body, rest) => (c :: body, rest) := by
  rw [splitString?.eq_def]
  split
  next he => cases he
  next he => exact absurd (List.cons.inj he).1 hquote
  next he => exact absurd (List.cons.inj he).1 hbackslash
  next he =>
    cases he
    rfl

theorem splitString?_escapedChar (c : Char) (rest : List Char) :
    splitString? (escapedChar c ++ rest) =
      (splitString? rest).map fun (body, rest) => (escapedChar c ++ body, rest) := by
  unfold escapedChar
  split
  case h_8 hquote hbackslash _ _ _ _ _ =>
    split
    next h =>
      have hhigh := hexDigit_ne (c.toNat / 16) (by omega)
      have hlow := hexDigit_ne (c.toNat % 16) (by omega)
      simp only [List.cons_append, List.nil_append, splitString?_escape,
        splitString?_plain (c := '0') (by decide) (by decide),
        splitString?_plain hhigh.1 hhigh.2, splitString?_plain hlow.1 hlow.2, Option.map_map]
      rfl
    next h => exact splitString?_plain hquote hbackslash rest
  all_goals exact splitString?_escape _ rest

/-- No quote of the text ends the string. -/
theorem splitString?_escaped (text rest : List Char) :
    splitString? (text.flatMap escapedChar ++ '"' :: rest) =
      some (text.flatMap escapedChar, rest) := by
  induction text with
  | nil => rfl
  | cons c text ih =>
    rw [List.flatMap_cons, List.append_assoc, splitString?_escapedChar, ih, Option.map_some]

theorem string?_escaped (s : String) (rest : List Char) :
    string? (s.toList.flatMap escapedChar ++ '"' :: rest) = some (.str s, rest) := by
  simp only [string?, splitString?_escaped, Option.bind_eq_bind, Option.bind_some,
    unescape?_escaped, Option.pure_def, String.ofList_toList]

/-! ## Tokens -/

/-- A number or a word does not go on in the text. -/
def Stops (rest : List Char) : Prop :=
  ∀ c ∈ rest.head?, isNumberChar c = false ∧ c.isLower = false

theorem token?_of_number? {text rest : List Char} {t : Token} (h : number? text = some t)
    (htext : ∀ c ∈ text, isNumberChar c = true) (hrest : Stops rest) :
    token? (text ++ rest) = some (t, rest) := by
  cases text with
  | nil => cases h
  | cons c cs =>
    have hc : isNumberChar c = true := htext c List.mem_cons_self
    have hquote : c ≠ '"' := by
      rintro rfl
      exact absurd hc (by decide)
    have hcs : ∀ d ∈ cs, isNumberChar d = true := fun d hd => htext d (List.mem_cons_of_mem c hd)
    have hstop : ∀ d ∈ rest.head?, isNumberChar d = false := fun d hd => (hrest d hd).1
    rw [List.cons_append, token?, if_neg hquote, if_pos hc, takeWhile_append_of_head hcs hstop,
      dropWhile_append_of_head hcs hstop, h, Option.map_some]

theorem token?_of_word? {c : Char} {cs rest : List Char} {t : Token}
    (h : word? (c :: cs) = some t) (hnumber : isNumberChar c = false)
    (hlower : (c :: cs).all Char.isLower = true) (hrest : Stops rest) :
    token? (c :: cs ++ rest) = some (t, rest) := by
  rw [List.all_eq_true] at hlower
  have hc : c.isLower = true := hlower c List.mem_cons_self
  have hquote : c ≠ '"' := by
    rintro rfl
    exact absurd hc (by decide)
  have hcs : ∀ d ∈ cs, d.isLower = true := fun d hd => hlower d (List.mem_cons_of_mem c hd)
  have hstop : ∀ d ∈ rest.head?, d.isLower = false := fun d hd => (hrest d hd).2
  rw [List.cons_append, token?, if_neg hquote, if_neg (by simp [hnumber]), if_pos hc,
    takeWhile_append_of_head hcs hstop, dropWhile_append_of_head hcs hstop, h, Option.map_some]

namespace Token

/-- Whether a token shows where it ends, whatever follows. -/
def isClosed : Token → Bool
  | .null | .bool _ | .int _ | .float _ _ => false
  | _ => true

/-- What may stand after a document within another one. -/
def isSeparator : Token → Bool
  | .comma | .closeArray | .closeObject => true
  | _ => false

/-- The token with another rank in place of that of a number. -/
def mapRanks (f : Fin Binary64.rankLimit → Fin Binary64.rankLimit) : Token → Token
  | .float negative rank => .float negative (f rank)
  | t => t

end Token

/-- A token is read from the start of its written form. -/
theorem token?_text (t : Token) {rest : List Char} (h : t.isClosed = true ∨ Stops rest) :
    token? (t.text ++ rest) = some (t.mapRanks rereadRank, rest) := by
  cases t with
  | openArray | closeArray | openObject | closeObject | comma | colon => rfl
  | null => exact token?_of_word? rfl rfl rfl (h.resolve_left Bool.false_ne_true)
  | bool b =>
    have hrest := h.resolve_left Bool.false_ne_true
    cases b with
    | true => exact token?_of_word? rfl rfl rfl hrest
    | false => exact token?_of_word? rfl rfl rfl hrest
  | int n =>
    exact token?_of_number? (number?_intText (int64?_eq_some_iff.2 rfl)) isNumberChar_of_mem_intText
      (h.resolve_left Bool.false_ne_true)
  | float negative rank =>
    exact token?_of_number? (number?_finite negative rank) isNumberChar_of_mem_finite
      (h.resolve_left Bool.false_ne_true)
  | str s =>
    have htext : (Token.str s).text ++ rest =
        '"' :: (s.toList.flatMap escapedChar ++ '"' :: rest) := by
      rw [Token.text, List.cons_append, List.append_assoc, List.singleton_append]
    rw [htext, token?, if_pos rfl, string?_escaped]
    rfl

theorem stops_nil : Stops [] := fun c h => by cases h

theorem stops_text_append {t : Token} (h : t.isSeparator = true) (rest : List Char) :
    Stops (t.text ++ rest) := by
  unfold Token.isSeparator at h
  split at h
  case h_4 => cases h
  all_goals
    intro c hc
    cases hc
    exact ⟨rfl, rfl⟩

theorem token?_text_alone (t : Token) : token? t.text = some (t.mapRanks rereadRank, []) := by
  have hread := token?_text t (.inr stops_nil)
  rwa [List.append_nil] at hread

theorem text_ne_nil (t : Token) : t.text ≠ [] := by
  intro h
  have hread := token?_text_alone t
  rw [h] at hread
  cases hread

/-- Different tokens have different written forms, also where they are read as the same. -/
theorem text_inj {t u : Token} (h : t.text = u.text) : t = u := by
  have hread : t.mapRanks rereadRank = u.mapRanks rereadRank := by
    have ht := token?_text_alone t
    rw [h, token?_text_alone u, Option.some.injEq, Prod.mk.injEq] at ht
    exact ht.1.symm
  cases t with
  | float negative rank =>
    cases u with
    | float negative' rank' =>
      obtain ⟨rfl, rfl⟩ := finite_inj h
      rfl
    | _ => cases hread
  | _ =>
    cases u with
    | float => cases hread
    | _ => exact hread

/-! ## Texts -/

theorem isBlank_of_token? {c : Char} {cs rest : List Char} {t : Token}
    (h : token? (c :: cs) = some (t, rest)) : isBlank c = false := by
  refine Bool.eq_false_iff.2 fun hblank => ?_
  simp only [isBlank, Bool.or_eq_true, beq_iff_eq] at hblank
  rcases hblank with ((rfl | rfl) | rfl) | rfl <;> cases h

theorem tokens?_of_token? {text rest : List Char} {t : Token} (h : token? text = some (t, rest)) :
    tokens? text = (tokens? rest).map (t :: ·) := by
  cases text with
  | nil => cases h
  | cons c cs =>
    have hblank : (c :: cs).dropWhile isBlank = c :: cs := by
      rw [List.dropWhile_cons_of_neg (by simp [isBlank_of_token? h])]
    rw [tokens?]
    split
    next he => rw [hblank] at he; cases he
    next c' cs' he =>
      rw [hblank] at he
      cases he
      split
      next hnone => rw [h] at hnone; cases hnone
      next t' rest' hsome =>
        rw [h] at hsome
        cases hsome
        rfl

theorem tokens?_nil : tokens? [] = some [] := by
  rw [tokens?]
  rfl

theorem tokens?_of_number? {text : List Char} {t : Token} (h : number? text = some t)
    (htext : ∀ c ∈ text, isNumberChar c = true) : tokens? text = some [t] := by
  have htokens := tokens?_of_token? (token?_of_number? h htext stops_nil)
  rwa [List.append_nil, tokens?_nil] at htokens

/-- Tokens that can be written with nothing between them. -/
def Spaced (tokens : List Token) : Prop :=
  tokens.IsChain fun t next => t.isClosed = true ∨ next.isSeparator = true

theorem spaced_cons_iff {t : Token} {tokens : List Token} :
    Spaced (t :: tokens) ↔
      (∀ next ∈ tokens.head?, t.isClosed = true ∨ next.isSeparator = true) ∧ Spaced tokens :=
  List.isChain_cons

theorem Spaced.token?_eq {t : Token} {tokens : List Token} (h : Spaced (t :: tokens)) :
    token? ((t :: tokens).flatMap Token.text) = some (t.mapRanks rereadRank, tokens.flatMap Token.text) := by
  rw [List.flatMap_cons]
  refine token?_text t ?_
  cases tokens with
  | nil => exact .inr stops_nil
  | cons next tokens =>
    rw [List.flatMap_cons]
    exact ((spaced_cons_iff.1 h).1 next rfl).imp_right fun hnext => stops_text_append hnext _

theorem tokens?_flatMap_text {tokens : List Token} (h : Spaced tokens) :
    tokens? (tokens.flatMap Token.text) = some (tokens.map (Token.mapRanks rereadRank)) := by
  induction tokens with
  | nil => exact tokens?_nil
  | cons t tokens ih =>
    rw [tokens?_of_token? h.token?_eq, ih (spaced_cons_iff.1 h).2]
    rfl

theorem flatMap_text_inj {tokens tokens' : List Token} (h : Spaced tokens) (h' : Spaced tokens')
    (htext : tokens.flatMap Token.text = tokens'.flatMap Token.text) : tokens = tokens' := by
  induction tokens generalizing tokens' with
  | nil =>
    cases tokens' with
    | nil => rfl
    | cons u tokens' =>
      rw [List.flatMap_cons] at htext
      exact absurd (List.append_eq_nil_iff.1 htext.symm).1 (text_ne_nil u)
  | cons t tokens ih =>
    cases tokens' with
    | nil =>
      rw [List.flatMap_cons] at htext
      exact absurd (List.append_eq_nil_iff.1 htext).1 (text_ne_nil t)
    | cons u tokens' =>
      have hread := h.token?_eq
      rw [htext, h'.token?_eq, Option.some.injEq, Prod.mk.injEq] at hread
      rw [List.flatMap_cons, List.flatMap_cons, hread.2, List.append_cancel_right_eq] at htext
      rw [text_inj htext, ih (spaced_cons_iff.1 h).2 (spaced_cons_iff.1 h').2 hread.2.symm]

end LooseTypes.Json
