import LooseTypes.Proofs.Binary64.Text
import LooseTypes.Proofs.Coercion.Outcome

/-!
# Numbers through their texts

What a value is as a number can be read from its text (`coerce_through_text`). An object has a text
but no number, the text of a number that is not finite is no numeral, and from `2 ^ 53` on the whole
part of a number need not be what its text shows; every other value gives the same numbers.
-/

namespace LooseTypes

open Binary64

namespace Value

variable {x : Binary64} {n : Int64}

/-! ## Integers -/

theorem toInt64_text_int : (Value.str (Value.int n).toText).toInt64 = n := by
  rw [toText, toInt64_intText, Int64.ofIntClamp_toInt]

theorem toBinary64_text_int : (Value.str (Value.int n).toText).toBinary64 = ofInt n.toInt := by
  rw [toText, toBinary64_intText]

/-! ## Binary64 numbers -/

theorem toBinary64_text_float (h : x.isFinite = true) :
    (Value.str (Value.float x).toText).toBinary64 = x := by
  obtain ⟨m, -, hscan, hread⟩ := scan_text h
  rw [toText, toBinary64, hscan, Option.map_some, Option.getD_some, hread]

theorem toInt64_text_float (h : ∀ q, x.value? = some q → |q| < 9007199254740992) :
    (Value.str (Value.float x).toText).toInt64 = (Value.float x).toInt64 := by
  cases x with
  | nan => rfl
  | infinite negative => cases negative <;> rfl
  | finite negative rank =>
    obtain ⟨m, -, hscan, -⟩ := scan_text (x := .finite negative rank) rfl
    have hread := toInt64_scan_text rfl (h _ rfl) hscan
    unfold toText toInt64
    dsimp only
    rw [hscan, Option.map_some, Option.getD_some, hread]

/-! ## All values -/

theorem toText_list (items : KeyedList Value) : (Value.list items).toText = "Array" := rfl

theorem toBinary64_text {v : Value} (hobject : v.kind ≠ .object)
    (hfinite : ∀ x, v = .float x → x.isFinite = true) :
    (Value.str v.toText).toBinary64 = v.toBinary64 := by
  cases v with
  | null | str => rfl
  | list items =>
    rw [toText_list]
    rfl
  | bool b =>
    cases b with
    | false => exact ofInt_zero.symm
    | true => exact toBinary64_intText 1
  | int n => exact toBinary64_text_int
  | float x => exact toBinary64_text_float (hfinite x rfl)
  | object o => exact absurd rfl hobject

theorem toInt64_text {v : Value} (hobject : v.kind ≠ .object)
    (hsmall : ∀ x q, v = .float x → x.value? = some q → |q| < 9007199254740992) :
    (Value.str v.toText).toInt64 = v.toInt64 := by
  cases v with
  | null | str => rfl
  | list items =>
    rw [toText_list]
    rfl
  | bool b => cases b <;> rfl
  | int n => exact toInt64_text_int
  | float x => exact toInt64_text_float fun q => hsmall x q rfl
  | object o => exact absurd rfl hobject

end Value

/-- Each value but an object is the same binary64 number through its text, unless it is a number that
is not finite; and it is the same integer, unless it is a finite number from `2 ^ 53` on. So a finite
number comes back from its text, and an integer gives the same number and comes back. -/
theorem coerce_through_text (v : Value) (hobject : v.kind ≠ .object) :
    (∃ s, (v.coerce "string").outcome = .ok (.str s) ∧
      ((∀ x, v = .float x → x.isFinite = true) → ∃ y,
        (v.coerce "float").outcome = .ok (.float y) ∧
        ((Value.str s).coerce "float").outcome = .ok (.float y)) ∧
      ((∀ x q, v = .float x → x.value? = some q → |q| < 9007199254740992) → ∃ n,
        (v.coerce "int").outcome = .ok (.int n) ∧
        ((Value.str s).coerce "int").outcome = .ok (.int n))) ∧
    (∀ x, v = .float x → x.isFinite = true → ∃ s, (v.coerce "string").outcome = .ok (.str s) ∧
      ((Value.str s).coerce "float").outcome = .ok v) ∧
    ∀ n, v = .int n → ∃ s, (v.coerce "string").outcome = .ok (.str s) ∧
      (v.coerce "float").outcome = .ok (.float (ofInt n.toInt)) ∧
      ((Value.str s).coerce "float").outcome = .ok (.float (ofInt n.toInt)) ∧
      ((Value.str s).coerce "int").outcome = .ok v := by
  have hstring := v.outcome_coerce_string
  refine ⟨⟨_, hstring, fun hfinite => ?_, fun hsmall => ?_⟩, ?_, ?_⟩
  · refine ⟨_, v.outcome_coerce_float, ?_⟩
    rw [Value.outcome_coerce_float, Value.toBinary64_text hobject hfinite]
  · refine ⟨_, v.outcome_coerce_int, ?_⟩
    rw [Value.outcome_coerce_int, Value.toInt64_text hobject hsmall]
  · rintro x rfl hfinite
    refine ⟨_, hstring, ?_⟩
    rw [Value.outcome_coerce_float, Value.toBinary64_text_float hfinite]
  · rintro n rfl
    refine ⟨_, hstring, Value.outcome_coerce_float _, ?_, ?_⟩
    · rw [Value.outcome_coerce_float, Value.toBinary64_text_int]
    · rw [Value.outcome_coerce_int, Value.toInt64_text_int]

theorem coerce_through_text_negative_zero :
    ((Value.float (zero true)).kind ≠ .object ∧
      (∀ x, Value.float (zero true) = .float x → x.isFinite = true) ∧
      (∀ x q, Value.float (zero true) = .float x → x.value? = some q → |q| < 9007199254740992) ∧
      ∃ s, ((Value.float (zero true)).coerce "string").outcome = .ok (.str s) ∧
        (∃ y, ((Value.float (zero true)).coerce "float").outcome = .ok (.float y) ∧
          ((Value.str s).coerce "float").outcome = .ok (.float y)) ∧
        (∃ n, ((Value.float (zero true)).coerce "int").outcome = .ok (.int n) ∧
          ((Value.str s).coerce "int").outcome = .ok (.int n)) ∧
        ((Value.str s).coerce "float").outcome = .ok (.float (zero true))) ∧
    (Value.int Int64.minValue).kind ≠ .object ∧
      ∃ s, ((Value.int Int64.minValue).coerce "string").outcome = .ok (.str s) ∧
        ((Value.str s).coerce "int").outcome = .ok (.int Int64.minValue) := by
  have hfinite : ∀ x, Value.float (zero true) = .float x → x.isFinite = true := by
    rintro x ⟨⟩
    rfl
  have hsmall : ∀ x q, Value.float (zero true) = .float x → x.value? = some q →
      |q| < 9007199254740992 := by
    rintro x q ⟨⟩ hq
    rw [value?_zero, Option.some.injEq] at hq
    rw [← hq]
    norm_num
  have hkind : (Value.float (zero true)).kind ≠ .object := by decide
  obtain ⟨⟨s, hs, hfloat, hint⟩, hback, -⟩ := coerce_through_text _ hkind
  refine ⟨⟨hkind, hfinite, hsmall, s, hs, hfloat hfinite, hint hsmall, ?_⟩, by decide, ?_⟩
  · obtain ⟨s', hs', hread⟩ := hback _ rfl rfl
    have hsame : s' = s := by simpa [hs'] using hs
    exact hsame ▸ hread
  · obtain ⟨-, -, hback⟩ := coerce_through_text (.int Int64.minValue) (by decide)
    obtain ⟨s, hs, -, -, hread⟩ := hback _ rfl
    exact ⟨s, hs, hread⟩

end LooseTypes
