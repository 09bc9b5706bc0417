import Recast.Proofs.NearestDouble
import Recast.Value.Basic

/-! # Integers in order

Two integers are compared as such if both are signed 64-bit integers, and otherwise by the
floats next to them.  These are told apart by their first 53 binary digits only, so that
two integers beyond the signed ones may be the same value without being the same number.

- `Value.sameValue_int`, `Value.order?_int` — what integers are compared by.
- `Value.comparesExactly_iff` — when the comparison is that of the numbers.
-/

namespace Recast

/-- An integer that is stored in 64 bits, signed or not. -/
def Stored (n : Int) : Prop := int64Min ≤ n ∧ n < 2 ^ 64

instance (n : Int) : Decidable (Stored n) := inferInstanceAs (Decidable (_ ∧ _))

theorem Stored.natAbs_lt {n : Int} (h : Stored n) : n.natAbs < 2 ^ 64 := by
  have hlow : -9223372036854775808 ≤ n := h.1
  have hhigh := h.2
  omega

namespace Value

variable {a b : Int}

theorem sameValue_int (ha : Stored a) (hb : Stored b) :
    (int a).sameValue (int b) = if inInt64 a && inInt64 b then a == b
      else nearestDouble a == nearestDouble b := by
  have hfloat : (floatOfInt a == floatOfInt b) = (nearestDouble a == nearestDouble b) := by
    rw [Bool.eq_iff_iff, beq_iff_eq (a := nearestDouble a)]
    exact beq_floatOfInt ha.natAbs_lt hb.natAbs_lt
  show (Num.int a).sameNumber (.int b) = _
  cases hina : inInt64 a <;> cases hinb : inInt64 b <;>
    simp [Num.sameNumber, Num.toInt64?, Num.toFloat, hina, hinb, hfloat]

theorem order?_int (ha : Stored a) (hb : Stored b) :
    (int a).order? (int b) = some (if inInt64 a && inInt64 b then compare a b
      else compare (nearestDouble a) (nearestDouble b)) := by
  have hfloat : (Dyadic.ofFloat (floatOfInt a)).order (Dyadic.ofFloat (floatOfInt b)) =
      compare (nearestDouble a) (nearestDouble b) := by
    rw [Dyadic.order_eq_compare, value_floatOfInt ha.natAbs_lt, value_floatOfInt hb.natAbs_lt,
      ← cmp_eq_compare, ← cmp_eq_compare]
    exact Int.cast_strictMono.cmp_map_eq _ _
  show some ((Num.int a).order (.int b)) = _
  cases hina : inInt64 a <;> cases hinb : inInt64 b <;>
    simp [Num.order, Num.toInt64?, Num.toFloat, hina, hinb, hfloat]

/-- Numbers that rounding keeps apart stay in their order. -/
theorem compare_nearestDouble (h : nearestDouble a ≠ nearestDouble b) :
    compare (nearestDouble a) (nearestDouble b) = compare a b := by
  rcases lt_trichotomy a b with hlt | rfl | hgt
  · rw [compare_lt_iff_lt.mpr hlt, compare_lt_iff_lt]
    exact lt_of_le_of_ne (nearestDouble_monotone hlt.le) h
  · exact absurd rfl h
  · rw [compare_gt_iff_gt.mpr hgt, compare_gt_iff_gt]
    exact lt_of_le_of_ne (nearestDouble_monotone hgt.le) h.symm

/-- The comparison of two integers is that of the numbers. -/
def ComparesExactly (a b : Int) : Prop :=
  ((int a).sameValue (int b) = true ↔ a = b) ∧ (int a).order? (int b) = some (compare a b)

instance (a b : Int) : Decidable (ComparesExactly a b) := inferInstanceAs (Decidable (_ ∧ _))

/-- Integers are compared exactly if both are signed 64-bit integers, or if the floats next to them
are different, which they are for all numbers that are more than 2048 apart. -/
theorem comparesExactly_iff (ha : Stored a) (hb : Stored b) :
    (ComparesExactly a b ↔
      inInt64 a = true ∧ inInt64 b = true ∨ a = b ∨ nearestDouble a ≠ nearestDouble b) ∧
    (2048 < (a - b).natAbs → nearestDouble a ≠ nearestDouble b) := by
  constructor
  · rw [ComparesExactly, sameValue_int ha hb, order?_int ha hb, ← Bool.and_eq_true]
    cases hin : inInt64 a && inInt64 b with
    | true => simp
    | false =>
        simp only [Bool.false_eq_true, if_false, false_or, beq_iff_eq, Option.some.injEq]
        constructor
        · rintro ⟨hsame, -⟩
          exact or_iff_not_imp_left.mpr (mt hsame.mp)
        · rintro (rfl | hne)
          · simp
          · exact ⟨iff_of_false hne fun h => hne (congrArg _ h), compare_nearestDouble hne⟩
  · intro hfar hsame
    have herror := natAbs_nearestDouble_sub_le ha.natAbs_lt
    have herror' := natAbs_nearestDouble_sub_le hb.natAbs_lt
    omega

theorem comparesExactly_iff_unsigned :
    (Stored (2 ^ 64 - 1) ∧ Stored (2 ^ 63 - 1) ∧
      2048 < ((2 ^ 64 - 1 : Int) - (2 ^ 63 - 1)).natAbs) ∧
      ComparesExactly (2 ^ 64 - 1) (2 ^ 63 - 1) := by
  have hstored : Stored (2 ^ 64 - 1) ∧ Stored (2 ^ 63 - 1) := by decide
  obtain ⟨hiff, hfar⟩ := comparesExactly_iff hstored.1 hstored.2
  have hapart : 2048 < ((2 ^ 64 - 1 : Int) - (2 ^ 63 - 1)).natAbs := by decide
  exact ⟨⟨hstored.1, hstored.2, hapart⟩, hiff.mpr (.inr (.inr (hfar hapart)))⟩

/-- The two largest numbers are the same value, and beside the largest signed number being the same
value is not transitive. -/
theorem comparesExactly_fails :
    (Stored (2 ^ 64 - 1) ∧ Stored (2 ^ 64 - 2) ∧ ¬ ComparesExactly (2 ^ 64 - 1) (2 ^ 64 - 2)) ∧
      ((int (2 ^ 64 - 1)).sameValue (int (2 ^ 64 - 2)) = true ∧
        (int (2 ^ 64 - 1)).order? (int (2 ^ 64 - 2)) = some .eq) ∧
      (int (2 ^ 63 - 2)).sameValue (int (2 ^ 63)) = true ∧
      (int (2 ^ 63)).sameValue (int (2 ^ 63 - 1)) = true ∧
      (int (2 ^ 63 - 2)).sameValue (int (2 ^ 63 - 1)) = false := by
  decide +kernel

end Value

end Recast
