import LooseTypes.Proofs.Binary64.Integer
import LooseTypes.Proofs.Coercion.Outcome

/-!
# The representations of an integer

An integer up to `2 ^ 53` in magnitude is exactly a 64-bit integer, a binary64 number and a decimal
text. In each conversion all three count as that integer (`Value.CountsAs`), so a coercion does not
tell which of them was given (`coerce_integer_representations`). Beyond `2 ^ 53` the conversions part,
since not every integer is a binary64 number there.
-/

namespace LooseTypes

/-- The value is the integer `n` as a scalar of some type. -/
inductive ScalarTarget.Represents (n : Int) : ScalarTarget → Value → Prop where
  | int {i : Int64} : i.toInt = n → Represents n .int (.int i)
  | float {x : Binary64} : x.IsInteger n → Represents n .float (.float x)
  | bool : Represents n .bool (.bool (decide (n ≠ 0)))
  | uint64 : Represents n .uint64 (.str (String.ofList (intText (max n 0))))
  | string (trims : Nat) : Represents n (.string trims) (.str (String.ofList (intText n)))

/-- The value is the integer `n` as a target asks for it: as a scalar, or as the only element of a
list. -/
inductive Target.Represents (n : Int) : Target → Value → Prop where
  | scalar {t : ScalarTarget} {v : Value} : t.Represents n v → Represents n (.scalar t) v
  | arrayOf {e : ScalarTarget} {v : Value} :
    e.Represents n v → Represents n (.arrayOf e) (.list (.ofEntries [(.index 0, v)]))

/-- The value is a scalar that each conversion takes for the integer `n`. -/
structure Value.CountsAs (v : Value) (n : Int) : Prop where
  toInt64_eq : v.toInt64.toInt = n
  toBinary64_eq : v.toBinary64.IsInteger n
  toBool_eq : v.toBool = decide (n ≠ 0)
  toText_eq : v.toText = String.ofList (intText n)
  toUint64_eq : v.toUint64 = String.ofList (intText (max n 0))
  toList_eq : v.toList = .ofEntries [(.index 0, v)]

/-! ## Targets -/

section Represents

variable {n : Int}

theorem isTrimmedText_intText (n : Int) : IsTrimmedText (intText n) := by
  refine isTrimmedText_of_signed fun c hc => ?_
  unfold intText at hc
  split at hc
  · exact (List.mem_cons.1 hc).imp_right isDigit_of_mem_digits
  · exact .inr (isDigit_of_mem_digits hc)

theorem ScalarTarget.Represents.unique {t : ScalarTarget} {v w : Value} (hv : t.Represents n v)
    (hw : t.Represents n w) : v = w := by
  cases hv with
  | int hi =>
    cases hw with
    | int hj => rw [Int64.toInt_inj.1 (hi.trans hj.symm)]
  | float hx =>
    cases hw with
    | float hy => rw [hx.unique hy]
  | bool | uint64 | string => cases hw; rfl

theorem Target.Represents.unique {t : Target} {v w : Value} (hv : t.Represents n v)
    (hw : t.Represents n w) : v = w := by
  cases hv with
  | scalar hv =>
    cases hw with
    | scalar hw => exact hv.unique hw
  | arrayOf hv =>
    cases hw with
    | arrayOf hw => rw [hv.unique hw]

theorem ScalarTarget.represents_convert {v : Value} (h : v.CountsAs n) (t : ScalarTarget) :
    t.Represents n (t.convert v) := by
  cases t with
  | int => exact .int h.toInt64_eq
  | float => exact .float h.toBinary64_eq
  | bool =>
    rw [convert, h.toBool_eq]
    exact .bool
  | uint64 =>
    rw [convert, h.toUint64_eq]
    exact .uint64
  | string trims =>
    cases trims with
    | zero =>
      rw [convert, h.toText_eq]
      exact .string 0
    | succ trims =>
      rw [convert, h.toText_eq, String.toList_ofList, trimmed_eq_self_iff.2 (isTrimmedText_intText n)]
      exact .string _

theorem Target.represents_convert {v : Value} (h : v.CountsAs n) {t : Target} (ht : t ≠ .array) :
    t.Represents n (t.convert v) := by
  cases t with
  | scalar t => exact .scalar (t.represents_convert h)
  | array => exact absurd rfl ht
  | arrayOf e =>
    rw [convert, h.toList_eq, KeyedList.mapValues_ofEntries]
    exact .arrayOf (e.represents_convert h)

end Represents

/-! ## The three representations -/

theorem intText_inj {n m : Int} : intText n = intText m ↔ n = m :=
  ⟨fun h => by rw [← signedDigits_intText n, h, signedDigits_intText], congrArg intText⟩

theorem intText_ne_nil (n : Int) : intText n ≠ [] := by
  unfold intText
  split
  · exact List.cons_ne_nil _ _
  · exact digits_ne_nil _

namespace Value

variable {n : Int}

theorem countsAs_float {x : Binary64} (hx : x.IsInteger n) (h : n.natAbs ≤ 2 ^ 53) :
    (Value.float x).CountsAs n where
  toInt64_eq := by
    rw [toInt64, hx.truncate_eq]
    exact Int64.toInt_ofInt_of_le (by omega) (by omega)
  toBinary64_eq := hx
  toBool_eq := hx.isNonzero_eq
  toText_eq := hx.text_eq h
  toUint64_eq := by rw [hx.toUint64_eq, uint64Text_eq_intText, min_eq_left (by unfold uint64Max; omega)]
  toList_eq := rfl

theorem countsAs_int {i : Int64} (hi : i.toInt = n) (h : n.natAbs ≤ 2 ^ 53) :
    (Value.int i).CountsAs n where
  toInt64_eq := hi
  toBinary64_eq := by
    rw [toBinary64, hi]
    exact Binary64.isInteger_ofInt h
  toBool_eq := by
    have hzero : i = 0 ↔ n = 0 := by rw [← Int64.toInt_inj, hi, Int64.toInt_zero]
    rw [toBool, Bool.eq_iff_iff, bne_iff_ne, decide_eq_true_iff, Ne, hzero]
  toText_eq := by rw [toText, hi]
  toUint64_eq := by rw [toUint64_int, hi, uint64Text_eq_intText, min_eq_left (by unfold uint64Max; omega)]
  toList_eq := rfl

theorem countsAs_str (h : n.natAbs ≤ 2 ^ 53) :
    (Value.str (String.ofList (intText n))).CountsAs n where
  toInt64_eq := by
    rw [Binary64.toInt64_intText, ofIntClamp_eq_ofInt (by omega) (by omega)]
    exact Int64.toInt_ofInt_of_le (by omega) (by omega)
  toBinary64_eq := by
    rw [Binary64.toBinary64_intText]
    exact Binary64.isInteger_ofInt h
  toBool_eq := by
    have hempty : (String.ofList (intText n) == "") = false := by
      rw [beq_eq_false_iff_ne, Ne, ← String.ofList_nil, String.ofList_inj]
      exact intText_ne_nil n
    have hzero : (String.ofList (intText n) == "0") = decide (n = 0) := by
      rw [Bool.eq_iff_iff, beq_iff_eq, decide_eq_true_iff, ← intText_inj (m := 0),
        ← String.ofList_inj]
      rfl
    rw [toBool, hempty, hzero, Bool.false_or, decide_not]
  toText_eq := rfl
  toUint64_eq := by
    have hi : (Int64.ofInt n).toInt = n := Int64.toInt_ofInt_of_le (by omega) (by omega)
    have hsame : (Value.str (String.ofList (intText n))).toUint64 =
        (Value.int (Int64.ofInt n)).toUint64 := by simp only [toUint64, toText, hi]
    rw [hsame, (countsAs_int hi h).toUint64_eq]
  toList_eq := rfl

end Value

/-- An integer up to `2 ^ 53` in magnitude is coerced to the same value whether it is given as a
64-bit integer, as a binary64 number or as a decimal text. -/
theorem coerce_integer_representations (n : Int) (h : n.natAbs ≤ 2 ^ 53) :
    (∃! i : Int64, i.toInt = n) ∧ (∃! x : Binary64, x.IsInteger n) ∧
    ∀ (i : Int64) (x : Binary64), i.toInt = n → x.IsInteger n →
      ∀ text : String, Spec.verdict text = .ok () → text ≠ "array" →
        ∃ (t : Target) (result : Value), t.text = text ∧ t.Represents n result ∧
          ∀ v ∈ [Value.int i, .float x, .str (String.ofList (intText n))],
            (v.coerce text).outcome = .ok result := by
  have hi : (Int64.ofInt n).toInt = n := Int64.toInt_ofInt_of_le (by omega) (by omega)
  refine ⟨⟨_, hi, fun j hj => Int64.toInt_inj.1 (hj.trans hi.symm)⟩,
    Binary64.existsUnique_isInteger h, fun i x hi hx text hverdict harray => ?_⟩
  obtain ⟨t, rfl⟩ := Spec.verdict_eq_ok_iff.1 hverdict
  have ht : t ≠ .array := fun he => harray (by rw [he]; rfl)
  have hcounts : ∀ v ∈ [Value.int i, .float x, .str (String.ofList (intText n))], v.CountsAs n := by
    simp only [List.forall_mem_cons, List.not_mem_nil, false_implies, implies_true, and_true]
    exact ⟨Value.countsAs_int hi h, Value.countsAs_float hx h, Value.countsAs_str h⟩
  have hresult : t.Represents n (t.convert (.int i)) :=
    t.represents_convert (Value.countsAs_int hi h) ht
  refine ⟨t, t.convert (.int i), rfl, hresult, fun v hv => ?_⟩
  have hsame : t.convert v = t.convert (.int i) :=
    (t.represents_convert (hcounts v hv) ht).unique hresult
  rw [v.outcome_coerce_text t, hsame]

theorem coerce_integer_representations_negative :
    (-9007199254740992 : Int).natAbs ≤ 2 ^ 53 ∧
    (Int64.ofInt (-9007199254740992)).toInt = -9007199254740992 ∧
    (Binary64.finite true ⟨1076 * 2 ^ 52, by decide⟩).IsInteger (-9007199254740992) ∧
    Spec.verdict "array.uint64" = .ok () ∧ "array.uint64" ≠ "array" ∧
      ∃ (t : Target) (result : Value), t.text = "array.uint64" ∧
        t.Represents (-9007199254740992) result ∧
          ∀ v ∈ [Value.int (Int64.ofInt (-9007199254740992)),
              .float (.finite true ⟨1076 * 2 ^ 52, by decide⟩),
              .str (String.ofList (intText (-9007199254740992)))],
            (v.coerce "array.uint64").outcome = .ok result := by
  have hle : (-9007199254740992 : Int).natAbs ≤ 2 ^ 53 := by decide
  have hi : (Int64.ofInt (-9007199254740992)).toInt = -9007199254740992 := by decide
  have hx : (Binary64.finite true ⟨1076 * 2 ^ 52, by decide⟩).IsInteger (-9007199254740992) :=
    Binary64.isInteger_iff.2 ⟨_, rfl, by decide +kernel⟩
  have hverdict := Spec.verdict_text (.arrayOf .uint64)
  exact ⟨hle, hi, hx, hverdict, by decide,
    (coerce_integer_representations _ hle).2.2 _ _ hi hx _ hverdict (by decide)⟩

end LooseTypes
