import Mathlib.Data.List.Nodup
import Recast.Proofs.ValueMapping

/-! # Mapped scalars

A scalar is mapped to one of the same type, or between an enumeration and texts,
integers or another enumeration.  Either way two mapped scalars are the same
exactly when the two scalars are: what is mapped spells the same variant before and
after (`valueWithin_spells`), and no two values of a type spell the same one.

- `Registry.Suits` — a value is one of its type, or null.
- `Registry.Bridge` — the two types are mapped by the variants of an enumeration.
- `Configuration.Corresponds` — what is known of a scalar and the one it is mapped
  to, in whichever direction.
-/

namespace Recast

/-- The value is one of the literal type. -/
def Literal.holds : Literal → Value → Bool
  | .boolean, .bool _ => true
  | .char, .char _ => true
  | .string, .str _ => true
  | .guid, .guid _ => true
  | .dateTime, .dateTime _ => true
  | .dateTimeOffset, .dateTimeOffset _ => true
  | .timeSpan, .timeSpan _ => true
  | l, .num (.int _) => l.isNumeric
  | l, .num (.float _) => l.isFractional
  | _, _ => false

theorem Literal.holds_string {v : Value} (h : Literal.string.holds v = true) : ∃ s, v = .str s := by
  unfold Literal.holds at h
  split at h <;> first | exact ⟨_, rfl⟩ | simp_all [Literal.isNumeric, Literal.isIntegral,
    Literal.isFractional]

theorem Literal.holds_integral {l : Literal} {v : Value} (hl : l.isIntegral = true)
    (h : l.holds v = true) : ∃ n, v = .int n := by
  unfold Literal.holds at h
  split at h
  case h_8 => exact ⟨_, rfl⟩
  case h_9 => cases l <;> simp [Literal.isIntegral, Literal.isFractional] at hl h
  case h_10 => cases h
  all_goals cases hl

namespace Registry

variable {r : Registry}

/-! ## §1  Values of a type -/

/-- Null, or a value of the scalar or record under the nullable layers of the type. -/
def Suits (r : Registry) (v : Value) (t : Ty) : Prop :=
  v.isNull = true ∨
    match r.variants? (r.core t), r.literal? (r.core t) with
    | some variants, _ => ∃ name ∈ variants, v = .enum name
    | none, some l => l.holds v = true
    | none, none => r.isRecord (r.core t) = true → v.asFields?.isSome = true

theorem suits_core {v : Value} {t : Ty} : r.Suits v (r.core t) ↔ r.Suits v t := by
  simp only [Suits, core_core]

/-! ## §2  Variants in other types -/

/-- Texts, enumerations, and integers that are positions in a list of distinct names. -/
def Readable (r : Registry) (variants : List String) (t : Ty) : Prop :=
  r.literal? t = some .string ∨ (r.variants? t).isSome = true ∨
    (∃ l, r.literal? t = some l ∧ l.isIntegral = true) ∧ variants.Nodup ∧
      variants.length ≤ int64Max.toNat

theorem literal?_of_enum {t : Ty} (h : (r.variants? t).isSome = true) : r.literal? t = none := by
  cases t <;> simp_all [variants?, declaration?, literal?]

/-- One of the types is the enumeration of these variants, and both can be read as variants. -/
structure Bridge (r : Registry) (variants : List String) (s t : Ty) : Prop where
  enumeration : r.variants? (r.core s) = some variants ∨ r.variants? (r.core t) = some variants
  source : r.Readable variants (r.core s)
  target : r.Readable variants (r.core t)

theorem Bridge.symm {variants : List String} {s t : Ty} (h : r.Bridge variants s t) :
    r.Bridge variants t s :=
  ⟨h.enumeration.symm, h.target, h.source⟩

/-- The types are one but for nullable layers, or an enumeration bridges them. -/
def Bridged (r : Registry) (s t : Ty) : Prop :=
  r.core s = r.core t ∨ ∃ variants, r.Bridge variants s t

theorem Bridged.congr {s t s' t' : Ty} (h : r.Bridged s t) (hs : r.core s' = r.core s)
    (ht : r.core t' = r.core t) : r.Bridged s' t' := by
  rcases h with h | ⟨variants, h⟩
  · exact .inl (by rw [hs, ht, h])
  · exact .inr ⟨variants, hs.symm ▸ ht.symm ▸ h.enumeration, hs.symm ▸ h.source,
      ht.symm ▸ h.target⟩

/-- No enumeration bridges Booleans. -/
theorem Bridged.core_of_boolean {s t : Ty} (h : r.Bridged s t)
    (ht : r.literal? (r.core t) = some .boolean) : r.core s = r.core t := by
  rcases h with h | ⟨variants, h⟩
  · exact h
  · rcases h.target with hstring | henum | ⟨⟨l, hl, hintegral⟩, -⟩
    · rw [ht] at hstring
      cases hstring
    · rw [literal?_of_enum henum] at ht
      cases ht
    · obtain rfl := Option.some.inj (ht.symm.trans hl)
      cases hintegral

/-- The value of the type stands for the variant. -/
def Spells (r : Registry) (variants : List String) (t : Ty) (v : Value) (name : String) : Prop :=
  match r.literal? (r.core t) with
  | some .string => v = .str name
  | some _ => ∃ i : Nat, variants[i]? = some name ∧ v = .int i
  | none => v = .enum name

/-- What a value of a type that is read as variants can be. -/
theorem Suits.readable {variants : List String} {t : Ty} {v : Value} (h : r.Suits v t)
    (hv : v.isNull = false) (ht : r.Readable variants (r.core t)) :
    (r.literal? (r.core t) = some .string ∧ r.variants? (r.core t) = none ∧ ∃ name, v = .str name) ∨
    (r.literal? (r.core t) = none ∧ ∃ own name, r.variants? (r.core t) = some own ∧ name ∈ own ∧
      v = .enum name) ∨
    ∃ l n, r.literal? (r.core t) = some l ∧ r.variants? (r.core t) = none ∧ l.isIntegral = true ∧
      v = .int n ∧ variants.Nodup ∧ variants.length ≤ int64Max.toNat := by
  have hnone : ∀ {l}, r.literal? (r.core t) = some l → r.variants? (r.core t) = none := by
    intro l hl
    cases henum : r.variants? (r.core t) with
    | none => rfl
    | some own =>
        rw [literal?_of_enum (by rw [henum]; rfl)] at hl
        cases hl
  simp only [Suits, hv, Bool.false_eq_true, false_or] at h
  rcases ht with hl | henum | ⟨⟨l, hl, hintegral⟩, hdistinct⟩
  · rw [hnone hl, hl] at h
    refine .inl ⟨hl, hnone hl, ?_⟩
    exact Literal.holds_string h
  · obtain ⟨own, hown⟩ := Option.isSome_iff_exists.mp henum
    rw [hown] at h
    obtain ⟨name, hname, rfl⟩ := h
    exact .inr (.inl ⟨literal?_of_enum henum, own, name, hown, hname, rfl⟩)
  · rw [hnone hl, hl] at h
    obtain ⟨n, rfl⟩ := Literal.holds_integral hintegral h
    exact .inr (.inr ⟨l, n, hl, hnone hl, hintegral, rfl, hdistinct⟩)

theorem Readable.isScalar {variants : List String} {t : Ty} (h : r.Readable variants t)
    (hplain : r.underlying? t = none) : r.isScalar t = true := by
  have hstrip : r.stripNullable t = t := by simp [stripNullable, hplain]
  rcases h with h | h | ⟨⟨l, h, -⟩, -⟩
  · simp [Registry.isScalar, isLiteral, h]
  · simp [Registry.isScalar, isEnum, hstrip, h]
  · simp [Registry.isScalar, isLiteral, h]

/-- An integer is the position of a variant only if it is one as a 64-bit integer. -/
theorem position_of_clamp {variants : List String} {n : Int} {name : String}
    (hlength : variants.length ≤ int64Max.toNat) (hn : ¬ clampInt64 n < 0)
    (h : variants[(clampInt64 n).toNat]? = some name) :
    ∃ i : Nat, variants[i]? = some name ∧ n = i := by
  have hlt := (List.getElem?_eq_some_iff.mp h).1
  refine ⟨(clampInt64 n).toNat, h, ?_⟩
  simp only [clampInt64, int64Min, int64Max] at *
  omega

theorem clamp_of_position {variants : List String} {i : Nat}
    (hlength : variants.length ≤ int64Max.toNat) (hi : i < variants.length) :
    clampInt64 i = i := by
  simp only [clampInt64, int64Min, int64Max] at *
  omega

end Registry

namespace Configuration

open Registry

variable {c : Configuration} {n : Nat} {v w : Value} {s t : Ty} {variants : List String}

theorem variantNamed_eq_ok {t : Ty} {targets : List String} {name : String}
    (h : c.variantNamed t targets name = .ok w) : w = .enum name := by
  unfold variantNamed at h
  split at h <;> cases h
  rfl

theorem converted_eq_ok (h : c.converted v s t = .ok w) : c.types.castValue v s t = .ok w := by
  unfold converted at h
  split at h <;> cases h
  assumption

/-- The variant at a position. -/
theorem position_toEnum {k : Int}
    (hvariants : c.types.variants? t = some variants) (ht : c.types.underlying? t = none)
    (hlength : variants.length ≤ int64Max.toNat) (h : c.types.castValue (.int k) s t = .ok w) :
    ∃ name, (∃ i : Nat, variants[i]? = some name ∧ Value.int k = .int i) ∧ w = .enum name := by
  have hplain : c.types.stripNullable t = t := by simp [stripNullable, ht]
  have hnull : (Value.int k).isNull = false := rfl
  simp only [castValue, hnull, hplain, hvariants, Bool.false_eq_true, if_false] at h
  split at h
  · rename_i u hu
    cases h
    simp only [toVariant?, Value.int] at hu
    split at hu
    · cases hu
    · rename_i hn
      obtain ⟨name, hname, rfl⟩ := Option.map_eq_some_iff.mp hu
      obtain ⟨i, hi, rfl⟩ := position_of_clamp hlength hn hname
      exact ⟨name, ⟨i, hi, rfl⟩, rfl⟩
  · cases h

/-- The position of a variant. -/
theorem enum_toPosition {l : Literal} {name : String} (ht : c.types.literal? t = some l)
    (hl : l.isIntegral = true) (hvariants : c.types.variants? s = some variants)
    (hnone : c.types.variants? t = none) (hs : c.types.underlying? s = none)
    (ht' : c.types.underlying? t = none) (hlength : variants.length ≤ int64Max.toNat)
    (h : c.types.castValue (.enum name) s t = .ok w) :
    ∃ i : Nat, variants[i]? = some name ∧ w = .int i := by
  have hplain : c.types.stripNullable t = t := by simp [stripNullable, ht']
  have hplain' : c.types.stripNullable s = s := by simp [stripNullable, hs]
  have hnull : (Value.enum name).isNull = false := rfl
  have hliteral : c.types.toLiteral? s l (.enum name) =
      (c.types.numberOf? s (.enum name)).map fun n => .int n.asInt64 := by
    cases l <;> first | rfl | cases hl
  simp only [castValue, hnull, hplain, hplain', hnone, ht, hliteral, Bool.false_eq_true,
    if_false] at h
  split at h
  · rename_i u hu
    cases h
    obtain ⟨n, hn, rfl⟩ := Option.map_eq_some_iff.mp hu
    simp only [numberOf?, hvariants, Option.bind_eq_bind, Option.bind_some,
      Option.bind_eq_some_iff, Option.some.injEq] at hn
    obtain ⟨i, hi, rfl⟩ := hn
    obtain ⟨hlt, hsame, -⟩ := List.findIdx?_eq_some_iff_getElem.mp hi
    refine ⟨i, ?_, ?_⟩
    · rw [List.getElem?_eq_getElem hlt, eq_of_beq hsame]
    · simp only [Num.asInt64, clamp_of_position hlength hlt]
  · cases h

/-- A scalar that is mapped between the two types spells one variant in both. -/
theorem scalarAs_spells (hbridge : c.types.Bridge variants s t)
    (hs : c.types.underlying? s = none) (ht : c.types.underlying? t = none)
    (hv : v.isNull = false) (hsuits : c.types.Suits v s) (h : c.scalarAs v s t = .ok w) :
    ∃ name, c.types.Spells variants s v name ∧ c.types.Spells variants t w name := by
  have hsource := hsuits.readable hv hbridge.source
  have henumeration := hbridge.enumeration
  have htarget := hbridge.target
  have hstrip : c.types.stripNullable s = s := by simp [stripNullable, hs]
  have hstrip' : c.types.stripNullable t = t := by simp [stripNullable, ht]
  simp only [Spells]
  rw [core_of_not_nullable hs] at hsource henumeration ⊢
  rw [core_of_not_nullable ht] at htarget henumeration ⊢
  simp only [scalarAs, hstrip, hstrip'] at h
  cases htargets : c.types.variants? t with
  | some targets =>
      simp only [htargets] at h
      rw [literal?_of_enum (t := t) (by simp [htargets])]
      rcases hsource with ⟨hl, hnone, name, rfl⟩ | ⟨hl, own, name, -, -, rfl⟩ |
        ⟨l, n, hl, hnone, hintegral, rfl, -, hlength⟩
      · exact ⟨name, by simp [hl], variantNamed_eq_ok h⟩
      · exact ⟨name, by simp [hl], variantNamed_eq_ok h⟩
      · obtain rfl : variants = targets := by
          rcases henumeration with h | h
          · simp [hnone] at h
          · simpa [htargets] using h.symm
        obtain ⟨name, hspelled, rfl⟩ :=
          position_toEnum htargets ht hlength (converted_eq_ok h)
        refine ⟨name, ?_, rfl⟩
        cases l with
        | string => cases hintegral
        | _ => simpa [hl] using hspelled
  | none =>
      simp only [htargets] at h
      have hsome : c.types.variants? s = some variants := by
        rcases henumeration with h | h
        · exact h
        · simp [htargets] at h
      rcases hsource with ⟨-, hnone, -⟩ | ⟨hl, own, name, hown, -, rfl⟩ | ⟨l, n, -, hnone, -⟩
      · simp [hnone] at hsome
      · refine ⟨name, by simp [hl], ?_⟩
        rcases htarget with hstring | henum | ⟨⟨l, hl', hintegral⟩, -, hlength⟩
        · simp only [hstring] at h ⊢
          cases h
          rfl
        · simp [htargets] at henum
        · have hconverted : c.converted (.enum name) s t = .ok w := by
            have hscalar : c.types.isScalar s = true := by
              simp [Registry.isScalar, isEnum, hstrip, hsome]
            cases l with
            | string => cases hintegral
            | _ => simpa [hl', hscalar] using h
          have hspelled := enum_toPosition hl' hintegral hsome htargets hs ht hlength
            (converted_eq_ok hconverted)
          cases l with
          | string => cases hintegral
          | _ => simpa [hl'] using hspelled
      · simp [hnone] at hsome

/-- The nullable layers of both types make no difference. -/
theorem valueWithin_spells (hbridge : c.types.Bridge variants s t) (hv : v.isNull = false)
    (hsuits : c.types.Suits v s) (hcore : c.types.core s ≠ c.types.core t)
    (h : c.valueWithin n v s t = .ok w) :
    ∃ name, c.types.Spells variants s v name ∧ c.types.Spells variants t w name := by
  obtain ⟨k, -, hplain⟩ := valueWithin_plainAs hv hcore h
  have hscalar := hbridge.source.isScalar (underlying?_core s)
  rw [plainAs, hscalar, Bool.true_or, if_pos rfl] at hplain
  have hcores : c.types.Bridge variants (c.types.core s) (c.types.core t) := by
    constructor <;> rw [core_core]
    · rw [core_core]
      exact hbridge.enumeration
    · exact hbridge.source
    · exact hbridge.target
  obtain ⟨name, hsource, htarget⟩ := scalarAs_spells hcores (underlying?_core s)
    (underlying?_core t) hv (suits_core.mpr hsuits) hplain
  rw [Spells, core_core] at hsource htarget
  exact ⟨name, hsource, htarget⟩

/-! ## §3  Comparing mapped scalars -/

/-- A scalar and the one it corresponds to: null with null, the same where the types are the same
but for nullable layers, and else two that spell one variant. -/
structure Corresponds (c : Configuration) (s t : Ty) (v w : Value) : Prop where
  null : w.isNull = v.isNull
  same : c.types.core s = c.types.core t → w = v
  spelled : c.types.core s ≠ c.types.core t → v.isNull = false → ∀ variants,
    c.types.Bridge variants s t →
      ∃ name, c.types.Spells variants s v name ∧ c.types.Spells variants t w name

theorem Corresponds.symm (h : c.Corresponds s t v w) : c.Corresponds t s w v where
  null := h.null.symm
  same heq := (h.same heq.symm).symm
  spelled hne hw variants hbridge := by
    obtain ⟨name, hv', hw'⟩ := h.spelled (Ne.symm hne) (h.null ▸ hw) variants hbridge.symm
    exact ⟨name, hw', hv'⟩

theorem corresponds_of_mapped (hsuits : s ≠ t → c.types.Suits v s)
    (h : c.valueWithin n v s t = .ok w) : c.Corresponds s t v w where
  null := valueWithin_isNull h
  same hcore := valueWithin_eq_self_of_core hcore h
  spelled hne hv _ hbridge :=
    valueWithin_spells hbridge hv (hsuits fun heq => hne (by rw [heq])) hne h

theorem sameValue_null_right : v.sameValue .null = v.isNull := by
  cases v <;> rfl

theorem sameValue_null_left : Value.null.sameValue v = v.isNull := by
  cases v <;> rfl

/-- Two values of one type are the same exactly when they spell the same variant. -/
theorem sameValue_of_spells {v' : Value} {t' : Ty} {name name' : String}
    (ht : c.types.Readable variants (c.types.core t)) (hcore : c.types.core t' = c.types.core t)
    (h : c.types.Spells variants t v name) (h' : c.types.Spells variants t' v' name') :
    v.sameValue v' = (name == name') := by
  have hpositions : variants.Nodup → variants.length ≤ int64Max.toNat →
      (∃ i : Nat, variants[i]? = some name ∧ v = .int i) →
      (∃ i : Nat, variants[i]? = some name' ∧ v' = .int i) → v.sameValue v' = (name == name') := by
    rintro hnodup hlength ⟨i, hi, rfl⟩ ⟨j, hj, rfl⟩
    obtain ⟨hi', hname⟩ := List.getElem?_eq_some_iff.mp hi
    obtain ⟨hj', hname'⟩ := List.getElem?_eq_some_iff.mp hj
    have hsame : Value.sameValue (.int i) (.int j) = ((i : Int) == j) := by
      have hrange : ∀ {k : Nat}, k < variants.length → inInt64 (k : Int) = true := by
        intro k hk
        have hle : (k : Int) ≤ int64Max := by
          simp only [int64Max] at hlength ⊢
          omega
        have hge : int64Min ≤ (k : Int) := by
          simp only [int64Min]
          omega
        simp [inInt64, hle, hge]
      simp [Value.sameValue, Value.int, Num.sameNumber, Num.toInt64?, hrange hi', hrange hj']
    rw [hsame, ← hname, ← hname', Bool.eq_iff_iff]
    simp only [beq_iff_eq, List.Nodup.getElem_inj_iff hnodup]
    omega
  simp only [Spells, hcore] at h h'
  rcases ht with hl | henum | ⟨⟨l, hl, hintegral⟩, hnodup, hlength⟩
  · simp only [hl] at h h'
    rw [h, h']
    rfl
  · simp only [literal?_of_enum henum] at h h'
    rw [h, h']
    rfl
  · cases l with
    | string => cases hintegral
    | _ =>
        simp only [hl] at h h'
        exact hpositions hnodup hlength h h'

/-- Comparing scalars gives the same before and after they are mapped between the same two types,
which are one type but for nullable layers, or bridged by an enumeration. -/
theorem Corresponds.sameValue {v' w' : Value} {s' t' : Ty} (h : c.Corresponds s t v w)
    (h' : c.Corresponds s' t' v' w') (hs : c.types.core s' = c.types.core s)
    (ht : c.types.core t' = c.types.core t)
    (hbridged : c.types.Bridged s t) : w.sameValue w' = v.sameValue v' := by
  by_cases hcore : c.types.core s = c.types.core t
  · rw [h.same hcore, h'.same (hs.trans (hcore.trans ht.symm))]
  · obtain ⟨variants, hbridge⟩ := hbridged.resolve_left hcore
    have hcore' : c.types.core s' ≠ c.types.core t' := by rwa [hs, ht]
    have hbridge' : c.types.Bridge variants s' t' :=
      ⟨hs.symm ▸ ht.symm ▸ hbridge.enumeration, hs.symm ▸ hbridge.source,
        ht.symm ▸ hbridge.target⟩
    cases hv : v.isNull with
    | true =>
        rw [Value.eq_null hv, Value.eq_null (h.null.trans hv), sameValue_null_left,
          sameValue_null_left, h'.null]
    | false =>
        cases hv' : v'.isNull with
        | true =>
            rw [Value.eq_null hv', Value.eq_null (h'.null.trans hv'), sameValue_null_right,
              sameValue_null_right, h.null]
        | false =>
            obtain ⟨name, hname, hname'⟩ := h.spelled hcore hv variants hbridge
            obtain ⟨other, hother, hother'⟩ := h'.spelled hcore' hv' variants hbridge'
            rw [sameValue_of_spells hbridge.target ht hname' hother',
              sameValue_of_spells hbridge.source hs hname hother]

end Configuration

/-! ## §4  Comparable scalars -/

namespace Registry

variable {r : Registry} {s t : Ty}

/-- Without nullable layers a scalar is a literal or an enumeration. -/
theorem isScalar_core : r.isScalar (r.core t) = (r.isLiteral (r.core t) || r.isEnum (r.core t)) := by
  simp [isScalar, stripNullable, underlying?_core]

theorem core_of_record (h : r.isRecord t = true) : r.core t = t :=
  core_of_not_nullable (underlying?_of_record h)

theorem isRecord_of_scalar_core (h : r.isScalar (r.core t) = true) : r.isRecord t = false := by
  cases hrecord : r.isRecord t with
  | false => rfl
  | true =>
      rw [core_of_record hrecord, isScalar_of_record hrecord] at h
      cases h

theorem core_of_enum {u : Ty} (h : r.isEnum u = true) : r.core u = u := by
  cases u with
  | nullable u => simp [isEnum, variants?, declaration?] at h
  | _ => rfl

theorem core_of_scalar (h : r.isScalar t = true) : r.isScalar (r.core t) = true := by
  rw [isScalar_core, Bool.or_eq_true]
  rcases Bool.or_eq_true _ _ |>.mp h with hliteral | henum
  · left
    rwa [isLiteral, literal?_core]
  · right
    rw [← core_stripNullable, core_of_enum henum]
    exact henum

/-- Without nullable layers a scalar is a literal or a declared enumeration. -/
theorem core_cases_of_scalar (h : r.isScalar (r.core t) = true) :
    (∃ l, r.core t = .literal l ∧ r.isRedefined (.literal l) = false) ∨
      ∃ id, r.core t = .declared id ∧ r.isEnum (.declared id) = true := by
  rw [isScalar_core, Bool.or_eq_true] at h
  have hplain := r.underlying?_core t
  generalize r.core t = u at h hplain
  cases u with
  | literal l =>
      refine .inl ⟨l, rfl, ?_⟩
      cases hred : r.isRedefined (.literal l) with
      | false => rfl
      | true => simp [isLiteral, literal?, hred, isEnum, variants?, declaration?] at h
  | declared id => exact .inr ⟨id, rfl, by simpa [isLiteral, literal?] using h⟩
  | nullable u =>
      cases hred : r.isRedefined (.nullable u) with
      | true => simp [isLiteral, literal?, hred, isEnum, variants?, declaration?] at h
      | false => simp [underlying?, hred] at hplain
  | _ => simp [isLiteral, literal?, isEnum, variants?, declaration?] at h

theorem isRedefined_of_enum (h : r.isEnum t = true) : r.isRedefined t = false := by
  cases hred : r.isRedefined t with
  | false => rfl
  | true =>
      have hnone : r.declaration? t = none := by
        unfold declaration?
        split
        · rw [if_pos hred]
        · rfl
      simp [isEnum, variants?, hnone] at h

/-- A scalar that is no value type is a text. -/
theorem core_of_not_value (h : r.isScalar (r.core t) = true) (hvalue : r.isValueType t = false) :
    r.core t = .string := by
  have hplain : r.underlying? t = none := by
    cases hu : r.underlying? t with
    | none => rfl
    | some u =>
        obtain ⟨rfl, hred⟩ := underlying?_eq_some hu
        simp [isValueType, hred] at hvalue
  have hcases := core_cases_of_scalar h
  rw [core_of_not_nullable hplain] at hcases ⊢
  rcases hcases with ⟨l, rfl, hred⟩ | ⟨id, rfl, henum⟩
  · simp only [isValueType, hred, Bool.false_eq_true, if_false, bne_eq_false_iff_eq] at hvalue
    rw [hvalue]
  · simp [isValueType, isRedefined_of_enum henum, henum] at hvalue

/-- What is assignable to a scalar is of its type, but for a nullable layer. -/
theorem core_of_assignable (hs : r.isScalar (r.core s) = true) (ht : r.isScalar (r.core t) = true)
    (h : r.isAssignable s t = true) : r.core s = r.core t := by
  have hextends : ∀ u, r.extends? s u = false := by
    intro u
    simp [extends?, isRecord_of_scalar_core hs]
  cases hu : r.underlying? t with
  | some u =>
      obtain ⟨rfl, hred⟩ := underlying?_eq_some hu
      simp only [isAssignable, hextends, Bool.or_false, Bool.or_eq_true, Bool.and_eq_true,
        Bool.not_eq_true', beq_iff_eq] at h
      rcases h with rfl | ⟨-, rfl⟩
      · rfl
      · exact (core_of_underlying? hu).symm
  | none =>
      have hcases := core_cases_of_scalar ht
      rw [core_of_not_nullable hu] at hcases
      have hsame : s = t := by
        rcases hcases with ⟨l, rfl, -⟩ | ⟨id, rfl, -⟩ <;>
          simpa only [isAssignable, hextends, Bool.or_false, beq_iff_eq] using h
      rw [hsame]

/-- Scalars can only be compared with scalars of their type, nullable or not. -/
theorem core_eq_of_comparable (hs : r.isScalar (r.core s) = true)
    (ht : r.isScalar (r.core t) = true) (h : r.areComparable s t = true) :
    r.core s = r.core t := by
  simp only [areComparable, Bool.or_eq_true, Bool.and_eq_true, Bool.not_eq_true', beq_iff_eq] at h
  rcases h with ((h | h) | h) | ⟨hvalue, hvalue'⟩
  · rw [← core_stripNullable, h, core_stripNullable]
  · exact core_of_assignable hs ht h
  · exact (core_of_assignable ht hs h).symm
  · rw [core_of_not_value hs hvalue, core_of_not_value ht hvalue']

theorem Bridged.isScalar (h : r.Bridged s t) (ht : r.isScalar (r.core t) = true) :
    r.isScalar (r.core s) = true := by
  rcases h with h | ⟨variants, h⟩
  · rw [h]
    exact ht
  · exact h.source.isScalar (underlying?_core s)

end Registry

namespace Configuration

variable {c : Configuration} {n : Nat} {v w : Value} {s t : Ty}

/-- Nothing is converted to a type that is no scalar. -/
theorem isScalar_of_scalarAs (h : c.scalarAs v s t = .ok w) : c.types.isScalar t = true := by
  unfold scalarAs at h
  dsimp only at h
  split at h
  · rename_i variants hvariants
    simp [Registry.isScalar, Registry.isEnum, hvariants]
  · rw [Registry.literal?_stripNullable] at h
    cases hl : c.types.literal? t with
    | some l => simp [Registry.isScalar, Registry.isLiteral, hl]
    | none =>
        rw [hl] at h
        cases h

/-- A scalar other than null is mapped to scalars only. -/
theorem isScalar_of_mapped (hs : c.types.isScalar (c.types.core s) = true)
    (hv : v.isNull = false) (h : c.valueWithin n v s t = .ok w) :
    c.types.isScalar (c.types.core t) = true := by
  by_cases hcore : c.types.core s = c.types.core t
  · rwa [← hcore]
  · obtain ⟨k, -, hplain⟩ := valueWithin_plainAs hv hcore h
    rw [plainAs, hs, Bool.true_or, if_pos rfl] at hplain
    exact isScalar_of_scalarAs hplain

end Configuration

end Recast
