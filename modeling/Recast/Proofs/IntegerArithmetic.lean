import Recast.Proofs.IntegerOrder
import Recast.Proofs.OperatorCoverage
import Recast.Proofs.RowQueries
import Recast.Proofs.Selectors

/-! # Arithmetic of integers

Arithmetic is that of signed 64-bit integers: a result out of their range is an error, and an
operand out of it is taken for the nearest of them.  Over signed integers a result is therefore
the exact one, and with an unsigned operand beyond them it may be one that merely looks right.

- `integerArithmetic_exact_iff` — when the result of an operator can be relied on.
- `negated_exact_iff`, `sumWithin_exact_iff` — the same of negation and of sums.
- `Registry.eval_integers_exact_iff` — evaluation.
-/

namespace Recast

/-! ## §1  Exact results -/

namespace Value

/-- The value is the integer, in whichever representation. -/
def IsInteger (v : Value) (n : Int) : Prop :=
  v = .int n ∨ ∃ f, v = .num (.float f) ∧ (Dyadic.ofFloat f).value = n

theorem isInteger_int {m n : Int} : (int m).IsInteger n ↔ m = n := by
  simp [IsInteger, int]

end Value

/-- The outcome is the number, where there is one, or an arithmetic error. -/
def ExactOrError (op : String) (n? : Option Int) (outcome : Except EvalError Value) : Prop :=
  outcome = .error (.arithmetic op) ∨ ∃ n v, n? = some n ∧ outcome = .ok v ∧ v.IsInteger n

section Outcomes

variable {op : String} {n? : Option Int}

theorem exactOrError_error : ExactOrError op n? (.error (.arithmetic op)) := .inl rfl

theorem exactOrError_ok {n : Int} {v : Value} :
    ExactOrError op (some n) (.ok v) ↔ v.IsInteger n := by
  simp [ExactOrError]

theorem exactOrError_checked {m n : Int} :
    ExactOrError op (some n) (checked op m) ↔ (inInt64 m = true → m = n) := by
  unfold checked
  split
  · rename_i hin
    rw [exactOrError_ok, Value.isInteger_int]
    simp [hin]
  · rename_i hout
    exact iff_of_true exactOrError_error fun hin => absurd hin hout

end Outcomes

/-! ## §2  Operators -/

theorem inInt64_iff {n : Int} : inInt64 n = true ↔ int64Min ≤ n ∧ n ≤ int64Max := by
  simp [inInt64]

/-- A stored integer is a signed one, or it lies beyond them and is taken for the largest. -/
theorem Stored.clamp_cases {n : Int} (h : Stored n) :
    inInt64 n = true ∧ clampInt64 n = n ∨ int64Max < n ∧ clampInt64 n = int64Max := by
  have hlow := h.1
  simp only [inInt64_iff, clampInt64, int64Min, int64Max] at hlow ⊢
  omega

theorem inInt64_of_natAbs_le {n : Int} (h : n.natAbs ≤ int64Max.natAbs) : inInt64 n = true := by
  simp only [inInt64_iff, int64Min, int64Max] at h ⊢
  omega

theorem inInt64_clamp (n : Int) : inInt64 (clampInt64 n) = true := by
  simp only [inInt64_iff, clampInt64, int64Min, int64Max]
  omega

theorem clampInt64_eq_zero {n : Int} : clampInt64 n = 0 ↔ n = 0 := by
  simp only [clampInt64, int64Min, int64Max]
  omega

theorem inInt64_tdiv_max {a : Int} (ha : inInt64 a = true) : inInt64 (a.tdiv int64Max) = true := by
  refine inInt64_of_natAbs_le ?_
  have hle : a.natAbs ≤ int64Max.natAbs + 1 := by
    simp only [inInt64_iff, int64Min, int64Max] at ha ⊢
    omega
  rw [Int.natAbs_tdiv]
  exact Nat.le_trans (Nat.div_le_div_right hle) (by decide)

/-- Only the quotient of two signed integers can be out of range. -/
theorem Stored.clamp_tdiv {a b : Int} (ha : Stored a) (hb : Stored b) :
    clampInt64 a = a ∧ clampInt64 b = b ∨
      inInt64 ((clampInt64 a).tdiv (clampInt64 b)) = true := by
  rcases ha.clamp_cases with ⟨-, hsame⟩ | ⟨-, hmax⟩
  · rcases hb.clamp_cases with ⟨-, hsame'⟩ | ⟨-, hmax⟩
    · exact .inl ⟨hsame, hsame'⟩
    · rw [hmax]
      exact .inr (inInt64_tdiv_max (inInt64_clamp a))
  · rw [hmax]
    refine .inr (inInt64_of_natAbs_le ?_)
    rw [Int.natAbs_tdiv]
    exact Nat.div_le_self _ _

theorem inInt64_tmod {a b : Int} (hb : inInt64 b = true) (hzero : b ≠ 0) :
    inInt64 (a.tmod b) = true := by
  refine inInt64_of_natAbs_le ?_
  have hlt : (a.tmod b).natAbs < b.natAbs := by
    rw [Int.natAbs_tmod]
    exact Nat.mod_lt _ (Int.natAbs_pos.mpr hzero)
  simp only [inInt64_iff, int64Min, int64Max] at hb ⊢
  omega

namespace BinaryOp

/-- The result of an arithmetic operator in mathematics.  Division and remainder go toward zero. -/
def exactly? (op : BinaryOp) (a b : Int) : Option Int :=
  match op with
  | .add => some (a + b)
  | .subtract => some (a - b)
  | .multiply => some (a * b)
  | .divide => if b = 0 then none else some (a.tdiv b)
  | .modulo => if b = 0 then none else some (a.tmod b)
  | _ => none

/-- An operand beyond the signed integers goes unnoticed: the operator has a result in range for
the nearest signed integers, and it is not the one for the operands. -/
def Mistakes (op : BinaryOp) (a b : Int) : Prop :=
  match op with
  | .add => int64Max < a ∧ b ≤ 0 ∨ int64Max < b ∧ a ≤ 0
  | .subtract => a ≠ b ∧ (int64Max < a ∧ 0 ≤ b ∨ int64Max < b ∧ -1 ≤ a)
  | .multiply => int64Max < a ∧ b.natAbs = 1 ∨ int64Max < b ∧ a.natAbs = 1
  | .divide => b ≠ 0 ∧ (clampInt64 a).tdiv (clampInt64 b) ≠ a.tdiv b
  | .modulo => b ≠ 0 ∧ (clampInt64 a).tmod (clampInt64 b) ≠ a.tmod b
  | _ => False

variable {op : BinaryOp} {a b : Int}

/-- Each operator goes by the range of its operands: the nearest signed integers of two signed ones
are themselves, and those of others are known. -/
theorem integerArithmetic_exact_iff (hop : op.isArithmetic = true) (ha : Stored a) (hb : Stored b) :
    ExactOrError op.symbol (op.exactly? a b)
      (integerArithmetic op (clampInt64 a) (clampInt64 b)) ↔ ¬ op.Mistakes a b := by
  have hacases := ha.clamp_cases
  have hbcases := hb.clamp_cases
  cases op with
  | add =>
      refine exactOrError_checked.trans ?_
      simp only [Mistakes, inInt64_iff, int64Min, int64Max] at hacases hbcases ⊢
      omega
  | subtract =>
      refine exactOrError_checked.trans ?_
      simp only [Mistakes, inInt64_iff, int64Min, int64Max] at hacases hbcases ⊢
      omega
  | multiply =>
      refine exactOrError_checked.trans ?_
      simp only [Mistakes, inInt64_iff]
      -- The products are no linear terms: first the nearest signed integers are put in.
      rcases hacases with ⟨hina, ha⟩ | ⟨houta, ha⟩ <;>
        rcases hbcases with ⟨hinb, hb⟩ | ⟨houtb, hb⟩ <;> rw [ha, hb]
      · refine iff_of_true (fun _ => rfl) ?_
        simp only [inInt64_iff] at hina hinb
        omega
      · have hcancel : a * int64Max = a * b ↔ a = 0 := by
          rw [mul_eq_mul_left_iff]
          exact or_iff_right (by omega)
        rw [hcancel]
        simp only [inInt64_iff, int64Min, int64Max] at hina houtb ⊢
        omega
      · have hcancel : int64Max * b = a * b ↔ b = 0 := by
          rw [mul_eq_mul_right_iff]
          exact or_iff_right (by omega)
        rw [hcancel]
        simp only [inInt64_iff, int64Min, int64Max] at hinb houta ⊢
        omega
      · simp only [int64Min, int64Max] at houta houtb ⊢
        omega
  | divide =>
      by_cases hzero : b = 0
      · subst hzero
        exact iff_of_true exactOrError_error fun h => h.1 rfl
      · simp only [exactly?, integerArithmetic, clampInt64_eq_zero, if_neg hzero, Mistakes]
        refine exactOrError_checked.trans ?_
        rcases ha.clamp_tdiv hb with ⟨hsame, hsame'⟩ | hin
        · simp [hsame, hsame']
        · simp [hin, hzero]
  | modulo =>
      by_cases hzero : b = 0
      · subst hzero
        exact iff_of_true exactOrError_error fun h => h.1 rfl
      · have hdivisor : clampInt64 b ≠ 0 := mt clampInt64_eq_zero.mp hzero
        simp only [exactly?, integerArithmetic, if_neg hzero, hdivisor, false_or, Mistakes]
        -- A remainder is an error where the quotient is out of range, though it is in range itself.
        cases hquotient : inInt64 ((clampInt64 a).tdiv (clampInt64 b)) with
        | false =>
            obtain ⟨hsame, hsame'⟩ := (ha.clamp_tdiv hb).resolve_right (by simp [hquotient])
            refine iff_of_true exactOrError_error ?_
            simp [hsame, hsame']
        | true =>
            refine exactOrError_checked.trans ?_
            simp [inInt64_tmod (inInt64_clamp b) hdivisor, hzero]
  | _ => cases hop

/-- Of signed integers no operator mistakes any. -/
theorem not_mistakes (ha : inInt64 a = true) (hb : inInt64 b = true) : ¬ op.Mistakes a b := by
  have hin := inInt64_iff.mp ha
  have hin' := inInt64_iff.mp hb
  have hsame : clampInt64 a = a ∧ clampInt64 b = b := by
    simp only [clampInt64]
    omega
  unfold Mistakes
  split <;> first | omega | simp [hsame]

end BinaryOp

/-! ## §3  Negation -/

theorem isFinite_floatOfInt {n : Int} (hn : n.natAbs < 2 ^ 64) :
    (floatOfInt n).isFinite = true := by
  by_cases hzero : n = 0
  · subst hzero
    rfl
  · obtain ⟨m, e, h, s, hfloat, -⟩ := floatOfInt_eq hzero hn
    show (floatOfInt n).toModel.unpack.isFinite = true
    rw [hfloat, h.unpack_float]
    rfl

theorem Value.float_floatOfInt {n : Int} (hn : n.natAbs < 2 ^ 64) :
    Value.float (floatOfInt n) = .num (.float (floatOfInt n)) := by
  rw [Value.float, Num.ofFloat?, if_pos (isFinite_floatOfInt hn)]

/-- The negation of an integer beyond the signed ones is that of the float next to it. -/
theorem negated_exact_iff {n : Int} (hn : Stored n) :
    ExactOrError UnaryOp.negate.name (some (-n)) (negated (.int n)) ↔
      inInt64 n = true ∨ nearestDouble n = n := by
  rcases hn.clamp_cases with ⟨hin, -⟩ | ⟨hbeyond, -⟩
  · have hneg : negated (.int n) = checked UnaryOp.negate.name (-n) := by
      simp [negated, Value.int, Num.toInt64?, hin]
    rw [hneg, exactOrError_checked]
    simp [hin]
  · have hout : inInt64 n = false := by
      rw [← Bool.not_eq_true, inInt64_iff]
      omega
    have hpos : 0 < n := lt_trans (by decide) hbeyond
    have hfloat : -(floatOfInt n) = floatOfInt (-n) := by
      rw [floatOfInt, floatOfInt, if_neg (by omega), if_pos (by omega), Int.natAbs_neg]
    have hneg : negated (.int n) = .ok (.num (.float (floatOfInt (-n)))) := by
      rw [← Value.float_floatOfInt (by rw [Int.natAbs_neg]; exact hn.natAbs_lt), ← hfloat]
      simp [negated, Value.int, Num.toInt64?, Num.toFloat, hout]
    have hvalue : (Dyadic.ofFloat (floatOfInt (-n))).value = ((-n : Int) : ℚ) ↔
        nearestDouble n = n := by
      rw [value_floatOfInt (by rw [Int.natAbs_neg]; exact hn.natAbs_lt), Int.cast_inj,
        nearestDouble_neg, neg_inj]
    rw [hneg, exactOrError_ok, ← hvalue, hout]
    simp [Value.IsInteger, Value.int]

/-! ## §4  Sums -/

theorem sumWithin_eq_some {total m : Int} {ns : List Int} (h : sumWithin total ns = some m) :
    m = total + ns.sum := by
  fun_induction sumWithin total ns with
  | case1 total => simpa using h.symm
  | case2 total n ns _ ih => rw [ih h, List.sum_cons, add_assoc]
  | case3 => cases h

/-- There is no sum exactly if the sum of some first integers is out of range. -/
theorem sumWithin_eq_none_iff {total : Int} {ns : List Int} (htotal : inInt64 total = true) :
    sumWithin total ns = none ↔ ∃ front, front <+: ns ∧ inInt64 (total + front.sum) = false := by
  fun_induction sumWithin total ns with
  | case1 total => simp [htotal]
  | case2 total n ns hin ih =>
      rw [ih hin]
      constructor
      · rintro ⟨front, hfront, hout⟩
        exact ⟨n :: front, List.cons_prefix_cons.mpr ⟨rfl, hfront⟩, by
          rw [List.sum_cons, ← add_assoc]; exact hout⟩
      · rintro ⟨front, hfront, hout⟩
        rcases List.prefix_cons_iff.mp hfront with rfl | ⟨rest, rfl, hrest⟩
        · simp [htotal] at hout
        · exact ⟨rest, hrest, by rw [List.sum_cons, ← add_assoc] at hout; exact hout⟩
  | case3 total n ns hout =>
      refine iff_of_true rfl ⟨[n], ⟨ns, rfl⟩, ?_⟩
      simpa using hout

/-- Taking integers for the nearest signed ones lessens the sum unless they all are signed. -/
theorem sum_clamp_eq_iff {ns : List Int} (h : ∀ n ∈ ns, Stored n) :
    (ns.map clampInt64).sum = ns.sum ↔ ∀ n ∈ ns, inInt64 n = true := by
  have hle : ∀ {ns : List Int}, (∀ n ∈ ns, Stored n) → (ns.map clampInt64).sum ≤ ns.sum := by
    intro ns h
    induction ns with
    | nil => exact le_rfl
    | cons n ns ih =>
        obtain ⟨hn, hns⟩ := List.forall_mem_cons.mp h
        have hcases := hn.clamp_cases
        have hrest := ih hns
        rw [List.map_cons, List.sum_cons, List.sum_cons]
        omega
  induction ns with
  | nil => simp
  | cons n ns ih =>
      obtain ⟨hn, hns⟩ := List.forall_mem_cons.mp h
      have hrest := hle hns
      rw [List.map_cons, List.sum_cons, List.sum_cons, List.forall_mem_cons]
      refine Iff.trans ?_ (and_congr_right' (ih hns))
      rcases hn.clamp_cases with ⟨hin, hsame⟩ | ⟨hbeyond, hmax⟩
      · rw [hsame]
        simp [hin]
      · have hout : inInt64 n = false := by
          rw [← Bool.not_eq_true, inInt64_iff]
          omega
        simp only [hout, Bool.false_eq_true, false_and, iff_false]
        omega

/-- The sum of stored integers can be relied on if they all are signed, and if the sum of some
first of them is out of range. -/
theorem sumWithin_exact_iff {ns : List Int} (h : ∀ n ∈ ns, Stored n) :
    ExactOrError "Sum" (some ns.sum)
        ((sumWithin 0 (ns.map clampInt64)).elim (.error (.arithmetic "Sum")) fun m =>
          .ok (.int m)) ↔
      (∀ n ∈ ns, inInt64 n = true) ∨
        ∃ front, front <+: ns ∧ inInt64 (front.map clampInt64).sum = false := by
  have hnone : sumWithin 0 (ns.map clampInt64) = none ↔
      ∃ front, front <+: ns ∧ inInt64 (front.map clampInt64).sum = false := by
    rw [sumWithin_eq_none_iff rfl]
    constructor
    · rintro ⟨front, hfront, hout⟩
      obtain ⟨front, hprefix, rfl⟩ := List.prefix_map_iff.mp hfront
      exact ⟨front, hprefix, by rwa [zero_add] at hout⟩
    · rintro ⟨front, hfront, hout⟩
      exact ⟨_, hfront.map clampInt64, by rwa [zero_add]⟩
  cases hsum : sumWithin 0 (ns.map clampInt64) with
  | none => exact iff_of_true exactOrError_error (.inr (hnone.mp hsum))
  | some m =>
      have hm : m = (ns.map clampInt64).sum := by rw [sumWithin_eq_some hsum, zero_add]
      have hfront := mt hnone.mpr (by simp [hsum])
      rw [or_iff_left hfront, ← sum_clamp_eq_iff h, hm]
      exact exactOrError_ok.trans Value.isInteger_int

/-! ## §5  Evaluation -/

namespace Registry

variable {r : Registry} {n : Nat} {env : Env}

/-- **Integer arithmetic is exact, or an error, over signed integers.**  What is evaluated of any
stored integers is the exact result or an arithmetic error, unless an operand beyond the signed
ones goes unnoticed; for sums, unless one of the summands is such and no partial sum is out of
range. -/
theorem eval_integers_exact_iff :
    (∀ {op : BinaryOp} {left right : Expr} {conversion : Option Expr} {ty : Ty} {a b : Int},
      op.isArithmetic = true → r.isIntegral ty = true → Stored a → Stored b →
      Returns (r.eval n left) env (.int a) env → Returns (r.eval n right) env (.int b) env →
        (ExactOrError op.symbol (op.exactly? a b)
            ((r.eval (n + 1) (.binary op left right conversion ty)).run env).1 ↔
          ¬ op.Mistakes a b)) ∧
    (∀ {operand : Expr} {ty : Ty} {a : Int}, Stored a →
      Returns (r.eval n operand) env (.int a) env →
        (ExactOrError UnaryOp.negate.name (some (-a))
            ((r.eval (n + 1) (.unary .negate operand ty)).run env).1 ↔
          inInt64 a = true ∨ nearestDouble a = a)) ∧
    ∀ {call : Expr} {items : List Value} {value : Value → Int},
      (∀ item ∈ items, Stored (value item)) →
      r.SelectorCall n env "Sum" items (fun item => .int (value item)) call →
        (ExactOrError "Sum" (some (items.map value).sum) ((r.eval (n + 1) call).run env).1 ↔
          (∀ item ∈ items, inInt64 (value item) = true) ∨
            ∃ front, front <+: items.map value ∧ inInt64 (front.map clampInt64).sum = false) := by
  refine ⟨?_, ?_, ?_⟩
  · intro op left right conversion ty a b hop hty ha hb hleft hright
    have hvalue : operatorValue (r.isIntegral ty) op (.int a) (.int b) =
        integerArithmetic op (clampInt64 a) (clampInt64 b) := by
      rw [hty]
      cases op with
      | add | subtract | multiply | divide | modulo => rfl
      | _ => cases hop
    have hrun : ((r.eval (n + 1) (.binary op left right conversion ty)).run env).1 =
        integerArithmetic op (clampInt64 a) (clampInt64 b) := by
      rw [← hvalue]
      unfold Returns at hleft hright
      cases op with
      | add | subtract | multiply | divide | modulo =>
          simp only [eval, evalNode, binaryValue, run_bind, hleft, hright, EvalM.run_ofExcept]
      | _ => cases hop
    rw [hrun]
    exact BinaryOp.integerArithmetic_exact_iff hop ha hb
  · intro operand ty a ha hoperand
    have hrun : ((r.eval (n + 1) (.unary .negate operand ty)).run env).1 = negated (.int a) := by
      unfold Returns at hoperand
      simp [eval, evalNode, unaryValue, run_bind, hoperand, EvalM.run_ofExcept]
    rw [hrun]
    exact negated_exact_iff ha
  · intro call items value hvalues hcall
    have hsum : ((r.eval (n + 1) call).run env).1 =
        (sumWithin 0 ((items.map value).map clampInt64)).elim (.error (.arithmetic "Sum")) fun m =>
          .ok (.int m) := by
      rw [hcall.run_sum, List.map_map]
      rfl
    rw [hsum, sumWithin_exact_iff (by simpa using hvalues)]
    simp

/-! ### Unsigned integers -/

namespace Unsigned

def word : Ty := .literal .uint64

def number (n : Int) : Expr := .const (.int n) word

def x : Parameter := ⟨0, "x", word⟩

/-- The sum of the numbers by `x => x`. -/
def sum (numbers : List Int) : Expr :=
  .call none (RowQuery.Numbers.method "Sum" [word])
    [.const (.list (numbers.map .int)) (.seq .list word),
      .lambda [x] (.param x) (.func [word] word)]

end Unsigned

open Unsigned in
/-- Beyond the signed integers a sum of two is an error, a power of two is negated exactly as a
float, and a partial sum out of range is an error. -/
theorem eval_integers_exact_iff_unsigned :
    (Stored (2 ^ 64 - 1) ∧ Stored 1 ∧ Stored (2 ^ 63) ∧ Stored (2 ^ 63 - 1)) ∧
    ExactOrError "+" (some (2 ^ 64)) ((({} : Registry).eval 2
      (.binary .add (number (2 ^ 64 - 1)) (number 1) none word)).run .empty).1 ∧
    ExactOrError "Negate" (some (-2 ^ 63)) ((({} : Registry).eval 2
      (.unary .negate (number (2 ^ 63)) word)).run .empty).1 ∧
    ExactOrError "Sum" (some (2 ^ 63)) ((({} : Registry).eval 2 (sum [2 ^ 63 - 1, 1])).run
      .empty).1 := by
  have hstored : Stored (2 ^ 64 - 1) ∧ Stored 1 ∧ Stored (2 ^ 63) ∧ Stored (2 ^ 63 - 1) := by
    decide
  obtain ⟨hmax, hone, hpower, hsigned⟩ := hstored
  obtain ⟨hbinary, hnegate, hsum⟩ := @eval_integers_exact_iff {} 1 .empty
  have hcall : ({} : Registry).SelectorCall 1 .empty "Sum" ([2 ^ 63 - 1, 1].map .int)
      (fun item => .int (item.asInt64?.getD 0)) (sum [2 ^ 63 - 1, 1]) := by
    refine .call rfl rfl rfl rfl ?_
    intro item hitem
    simp only [List.map_cons, List.map_nil, List.mem_cons, List.not_mem_nil, or_false] at hitem
    rcases hitem with rfl | rfl <;> rfl
  refine ⟨⟨hmax, hone, hpower, hsigned⟩, ?_, ?_, ?_⟩
  · refine (@hbinary .add (number (2 ^ 64 - 1)) (number 1) none word _ _ rfl rfl hmax hone rfl
      rfl).mpr ?_
    simp [BinaryOp.Mistakes, int64Max]
  · exact (@hnegate (number (2 ^ 63)) word _ hpower rfl).mpr (.inr (by decide +kernel))
  · refine (hsum ?_ hcall).mpr (.inr ⟨_, List.prefix_rfl, by decide⟩)
    intro item hitem
    simp only [List.map_cons, List.map_nil, List.mem_cons, List.not_mem_nil, or_false] at hitem
    rcases hitem with rfl | rfl
    · exact hsigned
    · exact hone

open Unsigned in
/-- The largest unsigned number is taken for the largest signed one, by itself and in a sum, and
its negation for that of the float next to it. -/
theorem eval_integers_exact_fails :
    ((({} : Registry).eval 2
        (.binary .add (number (2 ^ 64 - 1)) (number 0) none word)).run .empty).1 =
          .ok (.int (2 ^ 63 - 1)) ∧
      ¬ ExactOrError "+" (some (2 ^ 64 - 1)) ((({} : Registry).eval 2
        (.binary .add (number (2 ^ 64 - 1)) (number 0) none word)).run .empty).1 ∧
      ¬ ExactOrError "Negate" (some (-(2 ^ 64 - 1))) ((({} : Registry).eval 2
        (.unary .negate (number (2 ^ 64 - 1)) word)).run .empty).1 ∧
      ¬ ExactOrError "Sum" (some (2 ^ 64 - 1))
        ((({} : Registry).eval 2 (sum [2 ^ 64 - 1])).run .empty).1 := by
  have hadd : ((({} : Registry).eval 2
      (.binary .add (number (2 ^ 64 - 1)) (number 0) none word)).run .empty).1 =
        .ok (.int (2 ^ 63 - 1)) := rfl
  have hsum : ((({} : Registry).eval 2 (sum [2 ^ 64 - 1])).run .empty).1 =
      .ok (.int (2 ^ 63 - 1)) := rfl
  have hnegate : ((({} : Registry).eval 2
      (.unary .negate (number (2 ^ 64 - 1)) word)).run .empty).1 =
        negated (.int (2 ^ 64 - 1)) := rfl
  refine ⟨hadd, ?_, ?_, ?_⟩
  · rw [hadd, exactOrError_ok, Value.isInteger_int]
    decide
  · rw [hnegate]
    refine mt (negated_exact_iff (by decide)).mp ?_
    decide +kernel
  · rw [hsum, exactOrError_ok, Value.isInteger_int]
    decide

end Registry

end Recast
