import Mathlib
import Recast.Number.Basic

/-! # The float nearest to an integer

An integer of up to 64 bits becomes a float by keeping its first 53 binary digits, and
rounding what is cut off to the nearest, a tie to an even last digit.

- `nearestDouble` — the integer that is left.
- `Dyadic.order_eq_compare` — the order of floats is the order of their values.
- `value_floatOfInt` — the float of an integer stands for `nearestDouble`.
- `beq_floatOfInt` — the floats of two integers are equal if these are.
- `nearestDouble_monotone`, `natAbs_nearestDouble_sub_le` — rounding keeps the order, and goes
  no further than 1024.
-/

namespace Recast

/-! ## §1  Rounding -/

/-- `n / 2 ^ k` to the nearest whole number, a tie to the even one. -/
def roundedShift (n k : Nat) : Nat :=
  match compare (2 * (n % 2 ^ k)) (2 ^ k) with
  | .lt => n / 2 ^ k
  | .eq => n / 2 ^ k + n / 2 ^ k % 2
  | .gt => n / 2 ^ k + 1

/-- How many binary digits beyond 53 the number has. -/
def surplus (n : Nat) : Nat := n.log2 - 52

/-- The number with its first 53 binary digits, rounded. -/
def nearestNat (n : Nat) : Nat := roundedShift n (surplus n) * 2 ^ surplus n

/-- The integer that the float nearest to `n` stands for. -/
def nearestDouble (n : Int) : Int := n.sign * nearestNat n.natAbs

section Rounding

variable {m n k : Nat}

theorem log2_eq_add_surplus (hn : 52 ≤ n.log2) : n.log2 = 52 + surplus n := by
  unfold surplus
  omega

theorem roundedShift_eq (n k : Nat) :
    2 * (n % 2 ^ k) < 2 ^ k ∧ roundedShift n k = n / 2 ^ k ∨
      2 * (n % 2 ^ k) = 2 ^ k ∧ roundedShift n k = n / 2 ^ k + n / 2 ^ k % 2 ∨
      2 ^ k < 2 * (n % 2 ^ k) ∧ roundedShift n k = n / 2 ^ k + 1 := by
  unfold roundedShift
  split <;> rename_i h
  · exact .inl ⟨Nat.compare_eq_lt.mp h, rfl⟩
  · exact .inr (.inl ⟨Nat.compare_eq_eq.mp h, rfl⟩)
  · exact .inr (.inr ⟨Nat.compare_eq_gt.mp h, rfl⟩)

theorem div_le_roundedShift (n k : Nat) : n / 2 ^ k ≤ roundedShift n k := by
  rcases roundedShift_eq n k with ⟨-, h⟩ | ⟨-, h⟩ | ⟨-, h⟩ <;> omega

theorem roundedShift_le (n k : Nat) : roundedShift n k ≤ n / 2 ^ k + 1 := by
  rcases roundedShift_eq n k with ⟨-, h⟩ | ⟨-, h⟩ | ⟨-, h⟩ <;> omega

theorem roundedShift_mono (k : Nat) (h : m ≤ n) : roundedShift m k ≤ roundedShift n k := by
  have hdiv : m / 2 ^ k ≤ n / 2 ^ k := Nat.div_le_div_right h
  rcases Nat.lt_or_eq_of_le hdiv with hlt | heq
  · calc roundedShift m k ≤ m / 2 ^ k + 1 := roundedShift_le m k
      _ ≤ n / 2 ^ k := hlt
      _ ≤ roundedShift n k := div_le_roundedShift n k
  · -- the same quotient, so the remainders are in the order of the numbers
    have hm := Nat.div_add_mod m (2 ^ k)
    have hn := Nat.div_add_mod n (2 ^ k)
    rw [heq] at hm
    have hmod : m % 2 ^ k ≤ n % 2 ^ k := by omega
    rcases roundedShift_eq m k with ⟨hr, hm⟩ | ⟨hr, hm⟩ | ⟨hr, hm⟩ <;>
      rcases roundedShift_eq n k with ⟨hr', hn⟩ | ⟨hr', hn⟩ | ⟨hr', hn⟩ <;> omega

/-- Rounding goes no further than half a unit of the last place. -/
theorem roundedShift_error (n k : Nat) :
    2 * (roundedShift n k * 2 ^ k) ≤ 2 * n + 2 ^ k ∧
      2 * n ≤ 2 * (roundedShift n k * 2 ^ k) + 2 ^ k := by
  have hn := Nat.div_add_mod n (2 ^ k)
  rw [Nat.mul_comm] at hn
  rcases roundedShift_eq n k with ⟨hr, h⟩ | ⟨hr, h⟩ | ⟨hr, h⟩ <;> rw [h]
  · omega
  · rcases Nat.mod_two_eq_zero_or_one (n / 2 ^ k) with hmod | hmod <;> rw [hmod]
    · rw [Nat.add_zero]
      omega
    · rw [Nat.add_mul]
      omega
  · rw [Nat.add_mul]
    omega

/-- The first 53 binary digits fill the mantissa, or overflow it by rounding up. -/
theorem roundedShift_surplus (hn : 52 ≤ n.log2) :
    2 ^ 52 ≤ roundedShift n (surplus n) ∧ roundedShift n (surplus n) ≤ 2 ^ 53 := by
  have hpos : n ≠ 0 := by
    rintro rfl
    simp at hn
  have hsum := log2_eq_add_surplus hn
  constructor
  · refine le_trans ?_ (div_le_roundedShift n _)
    rw [Nat.le_div_iff_mul_le (Nat.two_pow_pos _), ← Nat.pow_add, ← hsum]
    exact Nat.log2_self_le hpos
  · refine le_trans (roundedShift_le n _) ?_
    rw [Nat.add_one_le_iff, Nat.div_lt_iff_lt_mul (Nat.two_pow_pos _), ← Nat.pow_add]
    exact lt_of_lt_of_le Nat.lt_log2_self (Nat.pow_le_pow_right (by decide) (by omega))

theorem nearestNat_of_small (hn : n.log2 ≤ 52) : nearestNat n = n := by
  have hk : surplus n = 0 := by
    unfold surplus
    omega
  rcases roundedShift_eq n 0 with ⟨h, hr⟩ | ⟨h, -⟩ | ⟨h, -⟩
  · simp [nearestNat, hk, hr]
  · simp [Nat.mod_one] at h
  · simp [Nat.mod_one] at h

theorem two_pow_log2_le_nearestNat (hn : n ≠ 0) : 2 ^ n.log2 ≤ nearestNat n := by
  rcases Nat.le_total n.log2 52 with hsmall | hlarge
  · rw [nearestNat_of_small hsmall]
    exact Nat.log2_self_le hn
  · rw [log2_eq_add_surplus hlarge, Nat.pow_add]
    exact Nat.mul_le_mul_right _ (roundedShift_surplus hlarge).1

theorem nearestNat_le_two_pow (n : Nat) : nearestNat n ≤ 2 ^ (n.log2 + 1) := by
  rcases Nat.le_total n.log2 52 with hsmall | hlarge
  · rw [nearestNat_of_small hsmall]
    exact Nat.lt_log2_self.le
  · rw [log2_eq_add_surplus hlarge, Nat.add_right_comm, Nat.pow_add]
    exact Nat.mul_le_mul_right _ (roundedShift_surplus hlarge).2

theorem log2_mono (h : m ≤ n) : m.log2 ≤ n.log2 := by
  by_cases hm : m = 0
  · simp [hm]
  · exact (Nat.le_log2 (by omega)).mpr (le_trans (Nat.log2_self_le hm) h)

/-- Rounding keeps the order. -/
theorem nearestNat_mono (h : m ≤ n) : nearestNat m ≤ nearestNat n := by
  rcases Nat.lt_or_eq_of_le (log2_mono h) with hlog | hlog
  · have hn : n ≠ 0 := by
      rintro rfl
      simp at hlog
    calc nearestNat m ≤ 2 ^ (m.log2 + 1) := nearestNat_le_two_pow m
      _ ≤ 2 ^ n.log2 := Nat.pow_le_pow_right (by decide) hlog
      _ ≤ nearestNat n := two_pow_log2_le_nearestNat hn
  · have hk : surplus m = surplus n := by rw [surplus, surplus, hlog]
    rw [nearestNat, nearestNat, hk]
    exact Nat.mul_le_mul_right _ (roundedShift_mono _ h)

theorem nearestDouble_natCast (n : Nat) : nearestDouble n = nearestNat n := by
  cases n with
  | zero => rfl
  | succ n => rw [nearestDouble, Int.sign_eq_one_of_pos (by omega), one_mul, Int.natAbs_natCast]

theorem nearestDouble_neg (n : Int) : nearestDouble (-n) = -nearestDouble n := by
  rw [nearestDouble, nearestDouble, Int.sign_neg, Int.natAbs_neg, neg_mul]

theorem nearestDouble_monotone : Monotone nearestDouble := by
  intro a b h
  obtain ⟨m, rfl | rfl⟩ := a.eq_nat_or_neg <;> obtain ⟨n, rfl | rfl⟩ := b.eq_nat_or_neg <;>
    simp only [nearestDouble_neg, nearestDouble_natCast]
  · exact_mod_cast nearestNat_mono (by omega)
  · obtain ⟨rfl, rfl⟩ : m = 0 ∧ n = 0 := by omega
    rfl
  · omega
  · have := nearestNat_mono (m := n) (n := m) (by omega)
    omega

/-- A number of at most 64 binary digits has at most 11 to round away. -/
theorem natAbs_nearestDouble_sub_le {n : Int} (hn : n.natAbs < 2 ^ 64) :
    (nearestDouble n - n).natAbs ≤ 1024 := by
  have hnat : ∀ m : Nat, m < 2 ^ 64 → ((nearestNat m : Int) - m).natAbs ≤ 1024 := by
    intro m hm
    have hk : surplus m ≤ 11 := by
      have : m.log2 < 64 := by
        by_cases hzero : m = 0
        · simp [hzero]
        · exact (Nat.log2_lt hzero).mpr hm
      unfold surplus
      omega
    have hpow : 2 ^ surplus m ≤ 2 ^ 11 := Nat.pow_le_pow_right (by decide) hk
    have herror := roundedShift_error m (surplus m)
    rw [← nearestNat] at herror
    omega
  obtain ⟨m, rfl | rfl⟩ := n.eq_nat_or_neg
  · rw [nearestDouble_natCast]
    exact hnat m (by omega)
  · rw [nearestDouble_neg, nearestDouble_natCast, ← Int.natAbs_neg]
    have := hnat m (by omega)
    omega

end Rounding

/-! ## §2  The value of a dyadic number -/

namespace Dyadic

def value (d : Dyadic) : ℚ := (if d.negative then -(d.m : ℚ) else d.m) * 2 ^ d.q

theorem scaled_mul {d : Dyadic} {q : Int} (hq : q ≤ d.q) : (d.scaled q : ℚ) * 2 ^ q = d.value := by
  obtain ⟨k, hk⟩ := Int.le.dest hq
  have hshift : (shift d.m (d.q - q) : ℚ) = d.m * 2 ^ k := by
    have hnonneg : ¬ d.q - q < 0 := by omega
    rw [shift, if_neg hnonneg, show (d.q - q).natAbs = k by omega, Nat.shiftLeft_eq]
    push_cast
    rfl
  have hpow : (2 : ℚ) ^ d.q = 2 ^ k * 2 ^ q := by
    rw [← hk, zpow_add₀ two_ne_zero, zpow_natCast, mul_comm]
  unfold scaled value
  cases d.negative <;> simp [hshift, hpow] <;> ring

/-- The order of two dyadic numbers is that of their values. -/
theorem order_eq_compare (x y : Dyadic) : x.order y = compare x.value y.value := by
  have hmono : StrictMono fun n : Int => (n : ℚ) * 2 ^ min x.q y.q := fun a b h =>
    mul_lt_mul_of_pos_right (Int.cast_lt.mpr h) (zpow_pos two_pos _)
  rw [order, ← cmp_eq_compare, ← cmp_eq_compare, ← hmono.cmp_map_eq]
  simp only [scaled_mul (min_le_left x.q y.q), scaled_mul (min_le_right x.q y.q)]

end Dyadic

/-! ## §3  Floats in normal form -/

section Floats

open Float.Model Float.Model.UnpackedFloat

theorem unpackSign_packComponents (s : Sign) (e : BitVec 11) (m : BitVec 52) :
    unpackSign (packComponents Format.binary64 s e m) = s.toBitVec := by
  simp only [unpackSign, packComponents, BitVec.extractLsb]
  rw [BitVec.extractLsb'_append_eq_of_le (by omega), BitVec.extractLsb'_append_eq_of_le (by omega)]
  cases s <;> rfl

/-- A mantissa of 53 binary digits, with an exponent that a float has room for. -/
structure Normal (m : Nat) (e : Int) : Prop where
  low : 2 ^ 52 ≤ m
  high : m < 2 ^ 53
  exponent_low : -1074 ≤ e
  exponent_high : e ≤ 971

namespace Normal

variable {s s' : Sign} {m m' : Nat} {e e' : Int}

theorem pos (h : Normal m e) : 0 < m := lt_of_lt_of_le (by decide) h.low

/-- The float `±m · 2 ^ e`. -/
def float (h : Normal m e) (s : Sign) : Float := ⟨Float.Model.pack (.finite s m e h.pos)⟩

theorem log2_eq (h : Normal m e) : m.log2 = 52 :=
  (Nat.log2_eq_iff h.pos.ne').mpr ⟨h.low, h.high⟩

theorem pack_eq (h : Normal m e) (s : Sign) :
    UnpackedFloat.pack Format.binary64 (.finite s m e h.pos) =
      packComponents Format.binary64 s (BitVec.ofNat 11 (e + 1075).toNat) (BitVec.ofNat 52 m) := by
  have hlow := h.exponent_low
  have hhigh := h.exponent_high
  have hexponent : (e + (Format.binary64.exponentBias : Int) + ((52 : Nat) : Int)).toNat =
      (e + 1075).toNat := by
    simp only [Format.exponentBias]
    omega
  unfold UnpackedFloat.pack
  simp only [hexponent, h.log2_eq, Format.mantissaBits]
  rw [if_neg (by omega), if_pos trivial]

theorem toNat_bits (h : Normal m e) (s : Sign) :
    (h.float s).toBits.toNat =
      (s.toBitVec.toNat * 2 ^ 11 + (e + 1075).toNat) * 2 ^ 52 + (m - 2 ^ 52) := by
  have hm := h.low
  have hm' := h.high
  have hlow := h.exponent_low
  have hhigh := h.exponent_high
  show (UnpackedFloat.pack Format.binary64 (.finite s m e h.pos)).toNat = _
  rw [h.pack_eq]
  unfold packComponents
  have hexponent : (BitVec.ofNat 11 (e + 1075).toNat).toNat = (e + 1075).toNat :=
    BitVec.toNat_ofNat _ _ |>.trans (Nat.mod_eq_of_lt (by omega))
  have hmantissa : (BitVec.ofNat 52 m).toNat = m - 2 ^ 52 := by
    rw [BitVec.toNat_ofNat]
    omega
  rw [BitVec.toNat_append, BitVec.toNat_append, hmantissa, hexponent,
    ← Nat.shiftLeft_add_eq_or_of_lt (by omega), ← Nat.shiftLeft_add_eq_or_of_lt (by omega),
    Nat.shiftLeft_eq, Nat.shiftLeft_eq]

theorem ofFloat_float (h : Normal m e) (s : Sign) :
    Dyadic.ofFloat (h.float s) = ⟨s == .negative, m, e⟩ := by
  have hm := h.low
  have hm' := h.high
  have hlow := h.exponent_low
  have hhigh := h.exponent_high
  have hexponent : (((h.float s).toBits.toNat >>> 52) % (1 <<< 11)) = (e + 1075).toNat := by
    rw [h.toNat_bits, Nat.shiftRight_eq_div_pow, Nat.shiftLeft_eq]
    omega
  have hfraction : (h.float s).toBits.toNat % (1 <<< 52) = m - 2 ^ 52 := by
    rw [h.toNat_bits, Nat.shiftLeft_eq]
    omega
  have hsign : (h.float s).toBits.toNat >>> 63 = s.toBitVec.toNat := by
    rw [h.toNat_bits, Nat.shiftRight_eq_div_pow]
    omega
  have hne : ¬ (e + 1075).toNat = 0 := by omega
  simp only [Dyadic.ofFloat, hexponent, hfraction, hsign, if_neg hne]
  congr 1
  · cases s <;> rfl
  · omega
  · omega

theorem unpack_float (h : Normal m e) (s : Sign) :
    (h.float s).toModel.unpack = .finite s m e h.pos := by
  have hm := h.low
  have hm' := h.high
  have hlow := h.exponent_low
  have hhigh := h.exponent_high
  show UnpackedFloat.unpack Format.binary64
    (UnpackedFloat.pack Format.binary64 (.finite s m e h.pos)) = _
  rw [h.pack_eq]
  have hexponent : (BitVec.ofNat 11 (e + 1075).toNat).toNat = (e + 1075).toNat :=
    BitVec.toNat_ofNat _ _ |>.trans (Nat.mod_eq_of_lt (by omega))
  have hfinite : BitVec.ofNat 11 (e + 1075).toNat ≠ -1#11 := by
    intro heq
    rw [heq] at hexponent
    have : (-1#11).toNat = 2047 := rfl
    omega
  have hnormal : BitVec.ofNat 11 (e + 1075).toNat ≠ 0#11 := by
    intro heq
    rw [heq] at hexponent
    have : (0#11).toNat = 0 := rfl
    omega
  have hmantissa : (1#1 ++ BitVec.ofNat 52 m).toNat = m := by
    rw [BitVec.toNat_append, ← Nat.shiftLeft_add_eq_or_of_lt (BitVec.isLt _), BitVec.toNat_ofNat,
      Nat.shiftLeft_eq, BitVec.toNat_ofNat]
    omega
  have hsign : Sign.ofBitVec (unpackSign (packComponents Format.binary64 s
      (BitVec.ofNat 11 (e + 1075).toNat) (BitVec.ofNat 52 m))) = s := by
    rw [unpackSign_packComponents]
    cases s <;> rfl
  unfold UnpackedFloat.unpack
  simp only [unpackExponent_packComponents, unpackMantissa_packComponents, if_neg hfinite,
    if_neg hnormal, hexponent, hsign]
  congr 1
  simp only [Format.exponentBias]
  omega

theorem neg_float (h : Normal m e) : -(h.float .positive) = h.float .negative := by
  show (⟨Float.Model.pack (h.float .positive).toModel.unpack.neg⟩ : Float) = _
  rw [h.unpack_float]
  rfl

/-- The value of a float in normal form. -/
theorem value_float (h : Normal m e) (s : Sign) :
    (Dyadic.ofFloat (h.float s)).value = s.apply 1 * (m * 2 ^ e) := by
  rw [h.ofFloat_float]
  have hpositive : (Sign.positive == Sign.negative) = false := rfl
  cases s <;> simp [Dyadic.value, Sign.apply, hpositive]

theorem beq_float (h : Normal m e) (h' : Normal m' e') (s s' : Sign) :
    (h.float s == h'.float s') = true ↔ s = s' ∧ m = m' ∧ e = e' := by
  show UnpackedFloat.beq (h.float s).toModel.unpack (h'.float s').toModel.unpack = true ↔ _
  rw [h.unpack_float, h'.unpack_float]
  unfold UnpackedFloat.beq
  cases s <;> cases s' <;>
    simp [UnpackedFloat.compare, Ordering.then_eq_eq, and_comm]

end Normal

theorem two_mul_mod {r p : Nat} (h : r < p) :
    2 * r % p = if p ≤ 2 * r then 2 * r - p else 2 * r := by
  split
  · rw [Nat.mod_eq_sub_mod ‹_›, Nat.mod_eq_of_lt (by omega)]
  · exact Nat.mod_eq_of_lt (by omega)

theorem nextRoundBit {r p b : Nat} (h : r < p) (hb : b = 0 ∨ b = 1) :
    (b != 0) = decide (2 * p ≤ 2 * (r + p * b)) := by
  rcases hb with rfl | rfl <;> simp [h]

theorem nextStickyBit {r p : Nat} (h : r < p) :
    (decide (p ≤ 2 * r) || decide (2 * r % p ≠ 0)) = decide (2 * r ≠ 0) := by
  rw [two_mul_mod h, Bool.eq_iff_iff]
  simp only [Bool.or_eq_true, decide_eq_true_eq]
  split <;> omega

/-- What is shifted out leaves its first digit, and whether there is another one. -/
theorem shiftRight_exact (n : Nat) : ∀ k : Nat, (⟨n, false, false⟩ : ExtendedMantissa) >>> k =
    ⟨n / 2 ^ k, decide (2 ^ k ≤ 2 * (n % 2 ^ k)), decide (2 * (n % 2 ^ k) % 2 ^ k ≠ 0)⟩
  | 0 => by simp [HShiftRight.hShiftRight, Nat.repeat, Nat.mod_one]
  | k + 1 => by
      show ((⟨n, false, false⟩ : ExtendedMantissa) >>> k).shiftRightOne = _
      have hlt : n % 2 ^ k < 2 ^ k := Nat.mod_lt _ (Nat.two_pow_pos k)
      have hmod : n % 2 ^ (k + 1) = n % 2 ^ k + 2 ^ k * (n / 2 ^ k % 2) := Nat.mod_pow_succ
      have hpow : 2 ^ (k + 1) = 2 * 2 ^ k := Nat.pow_succ'
      have hdouble : 2 * (n % 2 ^ (k + 1)) % 2 ^ (k + 1) = 2 * (n % 2 ^ k) := by
        rw [hmod, hpow, Nat.mul_mod_mul_left, Nat.add_mul_mod_self_left, Nat.mod_eq_of_lt hlt]
      rw [shiftRight_exact n k, ExtendedMantissa.shiftRightOne, hdouble, hmod, hpow,
        ← nextRoundBit hlt (Nat.mod_two_eq_zero_or_one _), ← nextStickyBit hlt,
        Nat.div_div_eq_div_mul, Nat.mul_comm (2 ^ k)]

theorem roundedMantissa_shiftRight (n k : Nat) :
    ((⟨n, false, false⟩ : ExtendedMantissa) >>> k).roundedMantissa = roundedShift n k := by
  have hlt : n % 2 ^ k < 2 ^ k := Nat.mod_lt _ (Nat.two_pow_pos k)
  rw [shiftRight_exact, two_mul_mod hlt]
  rcases roundedShift_eq n k with ⟨h, hr⟩ | ⟨h, hr⟩ | ⟨h, hr⟩ <;> rw [hr]
  · have hround : ¬ 2 ^ k ≤ 2 * (n % 2 ^ k) := by omega
    simp only [hround, if_false, decide_false]
    cases decide (2 * (n % 2 ^ k) ≠ 0) <;> rfl
  · simp only [h, le_refl, decide_true, if_true, Nat.sub_self, ne_eq, not_true, decide_false]
    rfl
  · have hsticky : 2 * (n % 2 ^ k) - 2 ^ k ≠ 0 := by omega
    simp only [h.le, hsticky, decide_true, if_true, ne_eq, not_false_eq_true]
    rfl

theorem targetExponent_eq {l : Nat} {e : Int} (h : -1074 ≤ l + 1 + e - 53) :
    Format.binary64.targetExponent (l + 1 + e) = l + e - 52 := by
  simp only [Format.targetExponent, Format.mantissaBits, Format.minExponent]
  omega

/-- A mantissa of 53 digits is not shifted. -/
theorem Normal.shiftToTargetExponent {m : Nat} {e : Int} (h : Normal m e) :
    shiftToTargetExponent Format.binary64 m e .exact = (⟨m, false, false⟩, e) := by
  have htarget : Format.binary64.targetExponent (totalExponent m e) = e := by
    rw [totalExponent, h.log2_eq, targetExponent_eq]
    · omega
    · have := h.exponent_low
      omega
  rw [UnpackedFloat.shiftToTargetExponent, htarget]
  simp [shiftToExponent, HShiftRight.hShiftRight, Nat.repeat,
    ExtendedMantissa.ofMantissaAndAccuracy]

/-- Rounding up to `2 ^ 53` takes one more digit away. -/
theorem shiftToTargetExponent_overflow {e : Int} (h : -1074 ≤ e) :
    shiftToTargetExponent Format.binary64 (2 ^ 53) e .exact = (⟨2 ^ 52, false, false⟩, e + 1) := by
  have htarget : Format.binary64.targetExponent (totalExponent (2 ^ 53) e) = e + 1 := by
    rw [totalExponent, Nat.log2_two_pow, targetExponent_eq] <;> omega
  rw [UnpackedFloat.shiftToTargetExponent, htarget]
  simp [shiftToExponent, HShiftRight.hShiftRight, Nat.repeat,
    ExtendedMantissa.ofMantissaAndAccuracy, ExtendedMantissa.shiftRightOne]

theorem roundWithAccuracy_eq {s : Sign} {m m' : Nat} {e e₁ e' : Int} {em : ExtendedMantissa}
    (hfirst : shiftToTargetExponent Format.binary64 m e .exact = (em, e₁))
    (hsecond : shiftToTargetExponent Format.binary64 em.roundedMantissa e₁ .exact =
      (⟨m', false, false⟩, e')) (hm' : 0 < m') :
    roundWithAccuracy Format.binary64 s m e .exact = .finite s m' e' hm' := by
  unfold roundWithAccuracy
  simp only [hfirst, hsecond, hm'.ne', dite_false]

theorem ofNat_eq_round {n : Nat} (hpos : n ≠ 0) : UnpackedFloat.ofNat Format.binary64 n =
    UnpackedFloat.round Format.binary64 .positive n 0 := by
  have hcompare : compare (n : Int) 0 = .gt := by
    rw [Int.compare_eq_gt]
    omega
  rw [UnpackedFloat.ofNat, UnpackedFloat.ofInt, UnpackedFloat.normalize, hcompare]
  rfl

theorem targetExponent_totalExponent (n : Nat) :
    Format.binary64.targetExponent (totalExponent n 0) = n.log2 - 52 := by
  rw [totalExponent, targetExponent_eq] <;> omega

/-- A number of at most 53 digits is filled up with zeros. -/
theorem ofNat_of_small {n : Nat} (hpos : n ≠ 0) (hsmall : n.log2 ≤ 52) :
    ∃ m e, ∃ h : Normal m e, UnpackedFloat.ofNat Format.binary64 n = .finite .positive m e h.pos ∧
      (m : ℚ) * 2 ^ e = nearestNat n := by
  obtain ⟨k, hk⟩ := Nat.exists_eq_add_of_le hsmall
  have hnormal : Normal (n * 2 ^ k) (-k) := by
    have hlow := Nat.mul_le_mul_right (2 ^ k) (Nat.log2_self_le hpos)
    have hhigh := Nat.mul_lt_mul_of_pos_right (Nat.lt_log2_self (n := n)) (Nat.two_pow_pos k)
    rw [← Nat.pow_add] at hlow hhigh
    rw [← hk] at hlow
    rw [Nat.add_right_comm, ← hk] at hhigh
    exact ⟨hlow, hhigh, by omega, by omega⟩
  refine ⟨_, _, hnormal, ?_, ?_⟩
  · have hshift : decreaseExponent n 0 (n.log2 - 52) = (n * 2 ^ k, -(k : Int)) := by
      have hamount : (0 - ((n.log2 : Int) - 52)).toNat = k := by omega
      rw [decreaseExponent, hamount, Nat.shiftLeft_eq, zero_sub]
    rw [ofNat_eq_round hpos, UnpackedFloat.round, targetExponent_totalExponent]
    simp only [hshift]
    exact roundWithAccuracy_eq hnormal.shiftToTargetExponent hnormal.shiftToTargetExponent _
  · rw [nearestNat_of_small hsmall]
    push_cast
    rw [mul_assoc, zpow_neg, zpow_natCast, mul_inv_cancel₀ (by positivity), mul_one]

/-- A number of more digits is rounded to 53, and a second time if that has brought in one
more. -/
theorem ofNat_of_large {n : Nat} (hlarge : 52 ≤ n.log2) (hlog : n.log2 < 64) :
    ∃ m e, ∃ h : Normal m e, UnpackedFloat.ofNat Format.binary64 n = .finite .positive m e h.pos ∧
      (m : ℚ) * 2 ^ e = nearestNat n := by
  have hpos : n ≠ 0 := by
    rintro rfl
    simp at hlarge
  have hk : (n.log2 : Int) - 52 = surplus n := by
    have := log2_eq_add_surplus hlarge
    omega
  have hkept : decreaseExponent n 0 (n.log2 - 52) = (n, 0) := by
    have hamount : (0 - ((n.log2 : Int) - 52)).toNat = 0 := by omega
    rw [decreaseExponent, hamount]
    rfl
  have hfirst : shiftToTargetExponent Format.binary64 n 0 .exact =
      ((⟨n, false, false⟩ : ExtendedMantissa) >>> surplus n, (surplus n : Int)) := by
    rw [shiftToTargetExponent, targetExponent_totalExponent, hk, shiftToExponent]
    simp [ExtendedMantissa.ofMantissaAndAccuracy]
  have hrounded : ∀ {m : Nat} {e : Int} (h : Normal m e),
      shiftToTargetExponent Format.binary64 (roundedShift n (surplus n)) (surplus n) .exact =
        (⟨m, false, false⟩, e) →
      UnpackedFloat.ofNat Format.binary64 n = .finite .positive m e h.pos := by
    intro m e h hsecond
    rw [← roundedMantissa_shiftRight] at hsecond
    rw [ofNat_eq_round hpos, UnpackedFloat.round, targetExponent_totalExponent]
    simp only [hkept]
    exact roundWithAccuracy_eq hfirst hsecond h.pos
  obtain ⟨hlow, hhigh⟩ := roundedShift_surplus hlarge
  rcases Nat.lt_or_eq_of_le hhigh with hlt | heq
  · have hnormal : Normal (roundedShift n (surplus n)) (surplus n) :=
      ⟨hlow, hlt, by omega, by omega⟩
    refine ⟨_, _, hnormal, hrounded hnormal hnormal.shiftToTargetExponent, ?_⟩
    rw [nearestNat, zpow_natCast]
    push_cast
    rfl
  · have hnormal : Normal (2 ^ 52) (surplus n + 1) := ⟨le_refl _, by decide, by omega, by omega⟩
    refine ⟨_, _, hnormal, hrounded hnormal ?_, ?_⟩
    · rw [heq]
      exact shiftToTargetExponent_overflow (by omega)
    · rw [nearestNat, heq, zpow_add₀ two_ne_zero, zpow_natCast]
      push_cast
      ring

/-- A positive integer as a float: its first 53 digits, and how many it has. -/
theorem ofNat_eq {n : Nat} (hpos : n ≠ 0) (hn : n < 2 ^ 64) :
    ∃ m e, ∃ h : Normal m e, UnpackedFloat.ofNat Format.binary64 n = .finite .positive m e h.pos ∧
      (m : ℚ) * 2 ^ e = nearestNat n := by
  rcases Nat.le_total n.log2 52 with hsmall | hlarge
  · exact ofNat_of_small hpos hsmall
  · exact ofNat_of_large hlarge ((Nat.log2_lt hpos).mpr hn)

/-- Of two mantissas of 53 digits the exponents decide. -/
theorem Normal.lt_of_exponent_lt {m m' : Nat} {e e' : Int} (h : Normal m e) (h' : Normal m' e')
    (he : e < e') : (m : ℚ) * 2 ^ e < m' * 2 ^ e' := by
  have hhigh : (m : ℚ) < 2 ^ (53 : ℤ) := by exact_mod_cast h.high
  have hlow : (2 : ℚ) ^ (52 : ℤ) ≤ m' := by exact_mod_cast h'.low
  calc (m : ℚ) * 2 ^ e < 2 ^ (53 : ℤ) * 2 ^ e := by gcongr
    _ = 2 ^ (53 + e) := (zpow_add₀ two_ne_zero _ _).symm
    _ ≤ 2 ^ (52 + e') := zpow_le_zpow_right₀ one_le_two (by omega)
    _ = 2 ^ (52 : ℤ) * 2 ^ e' := zpow_add₀ two_ne_zero _ _
    _ ≤ m' * 2 ^ e' := by gcongr

theorem Normal.value_pos {m : Nat} {e : Int} (h : Normal m e) : (0 : ℚ) < m * 2 ^ e :=
  mul_pos (by exact_mod_cast h.pos) (zpow_pos two_pos e)

theorem Normal.value_inj {s s' : Sign} {m m' : Nat} {e e' : Int} (h : Normal m e)
    (h' : Normal m' e') (heq : (s.apply 1 : ℚ) * (m * 2 ^ e) = s'.apply 1 * (m' * 2 ^ e')) :
    s = s' ∧ m = m' ∧ e = e' := by
  have hpos := h.value_pos
  have hpos' := h'.value_pos
  have hmagnitude : s = s' → s = s' ∧ m = m' ∧ e = e' := by
    rintro rfl
    have hsame : (m : ℚ) * 2 ^ e = m' * 2 ^ e' := by cases s <;> simpa [Sign.apply] using heq
    have he : e = e' := by
      rcases lt_trichotomy e e' with hlt | rfl | hlt
      · exact absurd hsame (h.lt_of_exponent_lt h' hlt).ne
      · rfl
      · exact absurd hsame (h'.lt_of_exponent_lt h hlt).ne'
    subst he
    exact ⟨rfl, by exact_mod_cast mul_right_cancel₀ (zpow_ne_zero e two_ne_zero) hsame, rfl⟩
  cases s <;> cases s' <;> simp only [Sign.apply, Int.cast_neg, Int.cast_one] at heq
  · exact hmagnitude rfl
  · linarith
  · linarith
  · exact hmagnitude rfl

/-! ## §4  Integers as floats -/

theorem nearestDouble_eq_zero {n : Int} : nearestDouble n = 0 ↔ n = 0 := by
  constructor
  · intro h
    by_contra hn
    have hlow := two_pow_log2_le_nearestNat (Int.natAbs_ne_zero.mpr hn)
    rcases Int.mul_eq_zero.mp h with hsign | hnearest
    · exact hn (Int.sign_eq_zero_iff_zero.mp hsign)
    · have := Nat.two_pow_pos n.natAbs.log2
      omega
  · rintro rfl
    rfl

@[simp] theorem nearestDouble_zero : nearestDouble 0 = 0 := rfl

/-- An integer as a float in normal form, unless it is zero. -/
theorem floatOfInt_eq {n : Int} (hpos : n ≠ 0) (hn : n.natAbs < 2 ^ 64) :
    ∃ m e, ∃ h : Normal m e, ∃ s : Sign, floatOfInt n = h.float s ∧
      (s.apply 1 : ℚ) * (m * 2 ^ e) = nearestDouble n := by
  obtain ⟨m, e, h, hfloat, hvalue⟩ := ofNat_eq (Int.natAbs_ne_zero.mpr hpos) hn
  have hmagnitude : (UInt64.ofNat n.natAbs).toFloat = h.float .positive := by
    show (⟨Float.Model.pack (UnpackedFloat.ofNat Format.binary64 (UInt64.ofNat n.natAbs).toNat)⟩ :
      Float) = _
    rw [UInt64.toNat_ofNat_of_lt' hn, hfloat]
    rfl
  refine ⟨m, e, h, if n < 0 then .negative else .positive, ?_, ?_⟩
  · rw [floatOfInt, hmagnitude, h.neg_float]
    split <;> rfl
  · rw [hvalue, nearestDouble]
    rcases lt_or_gt_of_ne hpos with hneg | hpos
    · simp [hneg, Int.sign_eq_neg_one_of_neg hneg, Sign.apply]
    · simp [hpos.not_gt, Int.sign_eq_one_of_pos hpos, Sign.apply]

/-- The float of an integer stands for the nearest number of 53 binary digits. -/
theorem value_floatOfInt {n : Int} (hn : n.natAbs < 2 ^ 64) :
    (Dyadic.ofFloat (floatOfInt n)).value = nearestDouble n := by
  by_cases hzero : n = 0
  · subst hzero
    have hbits : Dyadic.ofFloat (floatOfInt 0) = ⟨false, 0, -1074⟩ := rfl
    simp [hbits, Dyadic.value, nearestDouble]
  · obtain ⟨m, e, h, s, hfloat, hvalue⟩ := floatOfInt_eq hzero hn
    rw [hfloat, h.value_float, hvalue]

theorem unpack_zero : (floatOfInt 0).toModel.unpack = .zero .positive := rfl

theorem Normal.beq_zero {m : Nat} {e : Int} (h : Normal m e) (s : Sign) :
    (h.float s == floatOfInt 0) = false ∧ (floatOfInt 0 == h.float s) = false := by
  constructor
  · show UnpackedFloat.beq (h.float s).toModel.unpack (floatOfInt 0).toModel.unpack = false
    rw [h.unpack_float, unpack_zero]
    cases s <;> rfl
  · show UnpackedFloat.beq (floatOfInt 0).toModel.unpack (h.float s).toModel.unpack = false
    rw [h.unpack_float, unpack_zero]
    cases s <;> rfl

/-- The floats of two integers are equal exactly if the numbers that they stand for are. -/
theorem beq_floatOfInt {a b : Int} (ha : a.natAbs < 2 ^ 64) (hb : b.natAbs < 2 ^ 64) :
    (floatOfInt a == floatOfInt b) = true ↔ nearestDouble a = nearestDouble b := by
  by_cases hazero : a = 0 <;> by_cases hbzero : b = 0
  · subst hazero hbzero
    exact iff_of_true rfl rfl
  · obtain ⟨m, e, h, s, hfloat, -⟩ := floatOfInt_eq hbzero hb
    rw [hazero, hfloat, (h.beq_zero s).2]
    simpa using fun heq => hbzero (nearestDouble_eq_zero.mp heq.symm)
  · obtain ⟨m, e, h, s, hfloat, -⟩ := floatOfInt_eq hazero ha
    rw [hbzero, hfloat, (h.beq_zero s).1]
    simp [nearestDouble_eq_zero, hazero]
  · obtain ⟨m, e, h, s, hfloat, hvalue⟩ := floatOfInt_eq hazero ha
    obtain ⟨m', e', h', s', hfloat', hvalue'⟩ := floatOfInt_eq hbzero hb
    have hcast : nearestDouble a = nearestDouble b ↔
        (s.apply 1 : ℚ) * (m * 2 ^ e) = s'.apply 1 * (m' * 2 ^ e') := by
      rw [hvalue, hvalue', Int.cast_inj]
    rw [hfloat, hfloat', h.beq_float h', hcast]
    constructor
    · rintro ⟨rfl, rfl, rfl⟩
      rfl
    · exact h.value_inj h'

end Floats

end Recast
