import Mathlib.Logic.Relation
import Recast.Proofs.PathTyping
import Recast.Proofs.ScalarMapping
import Recast.Ty.Catalogue

/-! # The shape of mapped values

A value has the shape of a type if it is null or of the kind that the type holds: the
text of a `String`, a variant of an enumeration, a record that fits, a list of items
of the element's shape.  Mapping leads from the shape of one type to the shape of the
other, unless it comes down to a scalar and a literal of another kind for which there
is no conversion: a number as a `Boolean` stays a number (`valueAs_hasShape_fails`).

- `Registry.HasShape` — the shape of a type.
- `Registry.KeepsKind` — no scalar is taken for a literal of another kind.
- `Configuration.valueAs_hasShape` — mapped values have the shape of the target.
-/

namespace Recast

/-- The value is of the kind that the literal type holds; every number is of every numeric type. -/
def Literal.admits : Literal → Value → Bool
  | .boolean, .bool _ => true
  | .char, .char _ => true
  | .string, .str _ => true
  | .guid, .guid _ => true
  | .dateTime, .dateTime _ => true
  | .dateTimeOffset, .dateTimeOffset _ => true
  | .timeSpan, .timeSpan _ => true
  | l, .num _ => l.isNumeric
  | _, _ => false

theorem Literal.admits_num {l : Literal} (h : l.isNumeric = true) (n : Num) :
    l.admits (.num n) = true := by
  cases l <;> first | rfl | cases h

namespace Registry

variable {r : Registry}

/-! ## §1  Assignable types -/

section Assignable

variable {s t : Ty}

theorem isRecord_of_base? (h : r.base? s = some t) : r.isRecord s = true := by
  unfold base? at h
  unfold isRecord
  cases hrecord : r.record? s with
  | none => simp [hrecord] at h
  | some d => rfl

theorem descendsWithin_refl (r : Registry) : ∀ n, r.descendsWithin t n t = true
  | 0 => by simp [descendsWithin]
  | n + 1 => by simp [descendsWithin]

theorem descendsFrom_of_base? (h : r.base? s = some t) : r.descendsFrom s t = true := by
  have hbound : 0 < r.chainBound s := Nat.add_pos_left (Nat.pow_pos (by omega)) _
  obtain ⟨n, hn⟩ := Nat.exists_eq_add_of_lt hbound
  rw [descendsFrom, hn, descendsWithin, h]
  exact Bool.or_eq_true _ _ |>.mpr (.inr (r.descendsWithin_refl _))

/-- A record is assignable wherever its base chain leads to. -/
theorem isAssignable_of_extends? (h : r.extends? s t = true) : r.isAssignable s t = true := by
  have hrecord : r.isRecord s = true := (Bool.and_eq_true _ _ |>.mp h).1
  cases t with
  | object =>
      rw [isAssignable]
      split
      · rw [h, Bool.or_true]
      · -- the only type that is no `Object` is `Void`, and a record is no `Void` as it was built
        rcases record_isRedefined_or hrecord with hred | ⟨id, rfl⟩ | ⟨g, args, rfl⟩
        · by_cases hvoid : s = .void
          · subst hvoid
            simp [hred]
          · simp [hvoid]
        · rfl
        · rfl
  | seq kind e =>
      cases kind with
      | enumerable =>
          rw [isAssignable, element?_of_record hrecord, ite_self]
          simp [h]
      | _ => simp [isAssignable, h]
  | func ps ret =>
      rw [isAssignable, Bool.or_eq_true]
      right
      split
      · rename_i sps sret heq
        split at heq
        · cases heq
        · rename_i hfresh
          subst heq
          rcases record_isRedefined_or hrecord with hred | ⟨id, hid⟩ | ⟨g, args, hinst⟩
          · simp [hred] at hfresh
          · cases hid
          · cases hinst
      · exact h
  | _ => simp [isAssignable, h]

theorem isAssignable_of_base? (h : r.base? s = some t) : r.isAssignable s t = true :=
  isAssignable_of_extends? (by simp [extends?, isRecord_of_base? h, descendsFrom_of_base? h])

/-- What is assignable to a record is that record, or a record that descends from it. -/
theorem eq_or_extends?_of_isAssignable (ht : r.isRecord t = true) (h : r.isAssignable s t = true) :
    s = t ∨ r.extends? s t = true := by
  rcases record_isRedefined_or ht with hred | ⟨id, rfl⟩ | ⟨g, args, rfl⟩
  · cases t with
    | seq kind e => cases kind <;> simpa [isAssignable, hred] using h
    | _ => simpa [isAssignable, hred] using h
  · simpa [isAssignable] using h
  · simpa [isAssignable] using h

/-- A type that is no record is assignable to itself, to `Object`, to a nullable type, to a sequence
if it is one and to a delegate if it is one. -/
theorem isAssignable_cases (hs : r.isRecord s = false) (h : r.isAssignable s t = true) :
    s = t ∨ (t = .object ∧ r.isRedefined .object = false) ∨ (r.underlying? t).isSome = true ∨
      (r.isSequence s = true ∧ r.isSequence t = true) ∨
        (r.isDelegate s = true ∧ r.isDelegate t = true) := by
  have hextends : ∀ u, r.extends? s u = false := by simp [extends?, hs]
  cases t with
  | object =>
      cases hred : r.isRedefined .object with
      | true => exact .inl (by simpa [isAssignable, hextends, hred] using h)
      | false => exact .inr (.inl ⟨rfl, rfl⟩)
  | nullable u =>
      cases hred : r.isRedefined (.nullable u) with
      | true => exact .inl (by simpa [isAssignable, hextends, hred] using h)
      | false => exact .inr (.inr (.inl (by simp [underlying?, hred])))
  | seq kind e =>
      cases kind with
      | enumerable =>
          cases hred : r.isRedefined (.seq .enumerable e) with
          | true => exact .inl (by simpa [isAssignable, hextends, hred] using h)
          | false =>
              cases he : r.element? s with
              | none => exact .inl (by simpa [isAssignable, hextends, hred, he] using h)
              | some e' =>
                  exact .inr (.inr (.inr (.inl ⟨by simp [isSequence, he],
                    by simp [isSequence, element?, hred]⟩)))
      | _ => exact .inl (by simpa [isAssignable, hextends] using h)
  | func ps ret =>
      rw [isAssignable, hextends, Bool.or_eq_true, beq_iff_eq] at h
      rcases h with heq | h
      · exact .inl heq
      · split at h
        · rename_i sps sret heq
          split at heq
          · cases heq
          · rename_i hfresh
            simp only [Bool.or_eq_true, not_or, Bool.not_eq_true] at hfresh
            subst heq
            exact .inr (.inr (.inr (.inr ⟨by simp [isDelegate, signature?, hfresh.2],
              by simp [isDelegate, signature?, hfresh.1]⟩)))
        · cases h
  | _ => exact .inl (by simpa [isAssignable, hextends] using h)

/-- What is of type `own` is of type `t`, from one assignable type to the next. -/
def Fits (r : Registry) (own t : Ty) : Prop :=
  Relation.ReflTransGen (fun a b => r.isAssignable a b = true) own t

/-- `t` is `own` or stands in its base chain. -/
def Derives (r : Registry) (own t : Ty) : Prop :=
  Relation.ReflTransGen (fun a b => r.base? a = some b) own t

theorem derives_of_descendsWithin :
    ∀ {n : Nat} {s : Ty}, r.descendsWithin t n s = true → r.Derives s t
  | 0, _, h => by
      rw [descendsWithin, beq_iff_eq] at h
      exact h ▸ .refl
  | n + 1, _, h => by
      rw [descendsWithin, Bool.or_eq_true, beq_iff_eq] at h
      rcases h with rfl | h
      · exact .refl
      · split at h
        · rename_i b hbase
          exact Relation.ReflTransGen.head hbase (derives_of_descendsWithin h)
        · cases h

/-- What fits a record derives from it. -/
theorem fits_iff_derives (ht : r.isRecord t = true) : r.Fits s t ↔ r.Derives s t := by
  constructor
  · intro h
    induction h with
    | refl => exact .refl
    | tail _ hstep ih =>
        rcases eq_or_extends?_of_isAssignable ht hstep with rfl | hextends
        · exact ih ht
        · obtain ⟨hrecord, hdescends⟩ := Bool.and_eq_true _ _ |>.mp hextends
          exact (ih hrecord).trans (derives_of_descendsWithin hdescends)
  · intro h
    exact Relation.ReflTransGen.mono (fun _ _ => isAssignable_of_base?) _ _ h

end Assignable

/-! ## §2  Shapes -/

/-- The value is null or has the runtime shape of the type.  Everything is an `Object`. -/
inductive HasShape (r : Registry) : Value → Ty → Prop
  | null {t} : HasShape r .null t
  | nullable {v t u} (ht : r.underlying? t = some u) (hv : HasShape r v u) : HasShape r v t
  | object {v} (hfresh : r.isRedefined .object = false) : HasShape r v .object
  | literal {v l} (hfresh : r.isRedefined (.literal l) = false) (hv : l.admits v = true) :
      HasShape r v (.literal l)
  | variant {name t variants} (ht : r.variants? t = some variants) (hname : name ∈ variants) :
      HasShape r (.enum name) t
  | record {own fields t} (hscalar : r.isScalar t = false) (hplain : r.underlying? t = none)
      (hown : r.Fits own t) : HasShape r (.record own fields) t
  | list {items t e} (ht : r.element? t = some e) (hitems : ∀ v ∈ items, HasShape r v e) :
      HasShape r (.list items) t
  | lambda {e t} (ht : r.isDelegate t = true) : HasShape r (.lambda e) t

section Shapes

variable {v w : Value} {s t u : Ty}

theorem HasShape.underlying (h : r.HasShape v t) (ht : r.underlying? t = some u) :
    r.HasShape v u := by
  obtain ⟨rfl, hfresh⟩ := underlying?_eq_some ht
  cases h with
  | null => exact .null
  | nullable ht' hv =>
      rw [ht] at ht'
      exact Option.some.inj ht' ▸ hv
  | variant ht' => simp [variants?, declaration?] at ht'
  | record _ hplain =>
      rw [hplain] at ht
      cases ht
  | list ht' => simp [element?] at ht'
  | lambda ht' => simp [isDelegate, signature?] at ht'

/-- A literal that is no longer nullable holds a value of its kind. -/
theorem HasShape.admits {l : Literal} (h : r.HasShape v t) (hl : r.literal? t = some l)
    (ht : r.underlying? t = none) (hv : v.isNull = false) : l.admits v = true := by
  have hscalar : r.isScalar t = true := by simp [isScalar, isLiteral, hl]
  cases h with
  | null => cases hv
  | nullable ht' =>
      rw [ht] at ht'
      cases ht'
  | object => simp [literal?] at hl
  | literal _ hv' =>
      rw [literal?] at hl
      split at hl <;> cases hl
      exact hv'
  | variant ht' => rw [literal?_of_enum (by simp [ht'])] at hl; cases hl
  | record hnot =>
      rw [hscalar] at hnot
      cases hnot
  | list ht' =>
      obtain ⟨-, ⟨l', rfl, -⟩ | ⟨u, rfl⟩⟩ := isLiteral_cases (r := r) (t := t) (by simp [isLiteral, hl])
      · simp [element?] at ht'
      · simp [element?] at ht'
  | lambda ht' =>
      obtain ⟨-, ⟨l', rfl, -⟩ | ⟨u, rfl⟩⟩ := isLiteral_cases (r := r) (t := t) (by simp [isLiteral, hl])
      · simp [isDelegate, signature?] at ht'
      · simp [isDelegate, signature?] at ht'

theorem literal_of_plain {l : Literal} (hl : r.literal? t = some l)
    (ht : r.underlying? t = none) : t = .literal l ∧ r.isRedefined (.literal l) = false := by
  obtain ⟨hfresh, ⟨l', rfl, hl'⟩ | ⟨u, rfl⟩⟩ :=
    isLiteral_cases (r := r) (t := t) (by simp [isLiteral, hl])
  · cases hl'.symm.trans hl
    exact ⟨rfl, hfresh⟩
  · simp [underlying?, hfresh] at ht

theorem HasShape.of_admits {l : Literal} (hl : r.literal? t = some l)
    (ht : r.underlying? t = none) (hv : l.admits v = true) : r.HasShape v t := by
  obtain ⟨rfl, hfresh⟩ := literal_of_plain hl ht
  exact .literal hfresh hv

theorem HasShape.items {items : List Value} {e : Ty} (h : r.HasShape (.list items) t)
    (ht : r.element? t = some e) : ∀ v ∈ items, r.HasShape v e := by
  cases h with
  | nullable ht' =>
      obtain ⟨rfl, -⟩ := underlying?_eq_some ht'
      simp [element?] at ht
  | object => simp [element?] at ht
  | literal _ hv => simp [Literal.admits] at hv
  | list ht' hitems =>
      rw [ht] at ht'
      exact Option.some.inj ht' ▸ hitems

end Shapes

/-! ## §3  Converted scalars -/

/-- Scalars of the one type become values of the other, or are refused. -/
def hasConversion (r : Registry) (s t : Ty) : Bool :=
  !r.isScalar s || s == t || match r.literal? t with
    | some l => l == .string || l == .char || l.isNumeric || (r.isDate s && r.isDate t)
    | none => true

/-- The mapping of the one type to the other comes down to conversions of scalars that exist. -/
inductive KeepsKind (r : Registry) : Ty → Ty → Prop
  | mk {s t} (scalars : r.hasConversion (r.core s) (r.core t) = true)
      (elements : ∀ e e', r.element? (r.core s) = some e → r.element? (r.core t) = some e' →
        KeepsKind r e e') : KeepsKind r s t

section Conversions

variable {v w : Value} {s t : Ty}

/-- What a conversion of a value other than null comes down to. -/
theorem castValue_eq_ok (hv : v.isNull = false) (h : r.castValue v s t = .ok w) :
    (∃ variants, r.variants? (r.stripNullable t) = some variants ∧ toVariant? variants v = some w) ∨
      r.variants? (r.stripNullable t) = none ∧
        ((∃ l, r.literal? (r.stripNullable t) = some l ∧
            r.toLiteral? (r.stripNullable s) l v = some w) ∨
          r.literal? (r.stripNullable t) = none ∧ w = v) := by
  simp only [castValue, hv, Bool.false_eq_true, if_false] at h
  split at h
  · rename_i u hu
    cases h
    split at hu
    · rename_i variants hvariants
      exact .inl ⟨variants, hvariants, hu⟩
    · rename_i hvariants
      split at hu
      · rename_i l hl
        exact .inr ⟨hvariants, .inl ⟨l, hl, hu⟩⟩
      · rename_i hl
        cases hu
        exact .inr ⟨hvariants, .inr ⟨hl, rfl⟩⟩
  · cases h

theorem toVariant?_mem {variants : List String} (h : toVariant? variants v = some w) :
    ∃ name ∈ variants, w = .enum name := by
  unfold toVariant? at h
  split at h
  · rename_i name
    split at h
    · rename_i hmem
      cases h
      exact ⟨name, List.contains_iff_mem.mp hmem, rfl⟩
    · cases h
  · split at h
    · cases h
    · obtain ⟨name, hname, rfl⟩ := Option.map_eq_some_iff.mp h
      exact ⟨name, List.mem_of_getElem? hname, rfl⟩
  · cases h

/-- Every number, character or variant becomes a character or a number, or is refused. -/
theorem toLiteral?_admits {l : Literal} (hl : l = .char ∨ l.isNumeric = true)
    (h : r.toLiteral? s l v = some w) : l.admits w = true := by
  rcases hl with rfl | hnumeric
  · have hchar : r.toLiteral? s .char v =
        (r.numberOf? s v).bind fun n => (charOfInt? n.asInt64).map .char := by
      cases v <;> rfl
    rw [hchar] at h
    obtain ⟨n, -, hn⟩ := Option.bind_eq_some_iff.mp h
    obtain ⟨char, -, rfl⟩ := Option.map_eq_some_iff.mp hn
    rfl
  · have hnumber : r.toLiteral? s l v =
        if l.isIntegral then (r.numberOf? s v).map fun n => .int n.asInt64
        else (r.numberOf? s v).map fun n => .num (.float n.toFloat) := by
      cases l <;> first | rfl | cases hnumeric
    rw [hnumber] at h
    split at h <;>
    · obtain ⟨n, -, rfl⟩ := Option.map_eq_some_iff.mp h
      exact Literal.admits_num hnumeric _

/-- A date of either kind becomes a date of the kind asked for. -/
theorem toLiteral?_date {l l' : Literal} (hl : l = .dateTime ∨ l = .dateTimeOffset)
    (hl' : l' = .dateTime ∨ l' = .dateTimeOffset) (hv : l'.admits v = true)
    (h : r.toLiteral? s l v = some w) : l.admits w = true := by
  rcases hl with rfl | rfl <;> rcases hl' with rfl | rfl <;>
    cases v with
    | dateTime time => cases h; rfl
    | dateTimeOffset time => cases h; rfl
    | _ => cases hv

theorem isDate_cases (h : r.isDate t = true) :
    ∃ l, r.literal? t = some l ∧ (l = .dateTime ∨ l = .dateTimeOffset) := by
  unfold isDate at h
  cases hl : r.literal? t with
  | none => simp [hl] at h
  | some l => exact ⟨l, rfl, by simpa [hl] using h⟩

theorem KeepsKind.congr {s' t' : Ty} (h : r.KeepsKind s t) (hs : r.core s' = r.core s)
    (ht : r.core t' = r.core t) : r.KeepsKind s' t' := by
  cases h with
  | mk scalars elements => exact .mk (by rwa [hs, ht]) (by rwa [hs, ht])

end Conversions

end Registry

namespace Configuration

variable {c : Configuration} {v w : Value} {s t : Ty}

/-- A scalar as an enumeration is one of its variants. -/
theorem scalarAs_variant {variants : List String} (ht : c.types.underlying? t = none)
    (hvariants : c.types.variants? t = some variants) (hv : v.isNull = false)
    (h : c.scalarAs v s t = .ok w) : ∃ name ∈ variants, w = .enum name := by
  have hplain : c.types.stripNullable t = t := by simp [Registry.stripNullable, ht]
  have hnamed : ∀ {name}, c.variantNamed t variants name = .ok w →
      ∃ name ∈ variants, w = .enum name := by
    intro name h
    unfold variantNamed at h
    split at h
    · rename_i hmem
      cases h
      exact ⟨name, List.contains_iff_mem.mp hmem, rfl⟩
    · cases h
  simp only [scalarAs, hplain, hvariants] at h
  split at h
  · exact hnamed h
  · exact hnamed h
  · have hcast := Registry.castValue_eq_ok hv (converted_eq_ok h)
    rw [hplain, hvariants] at hcast
    rcases hcast with ⟨_, hsome, hcast⟩ | ⟨hnone, -⟩
    · cases hsome
      exact Registry.toVariant?_mem hcast
    · cases hnone

/-- A value as a literal: its text, or a scalar that is converted. -/
theorem scalarAs_literal {l : Literal} (hs : c.types.underlying? s = none)
    (ht : c.types.underlying? t = none) (hl : c.types.literal? t = some l) (hv : v.isNull = false)
    (h : c.scalarAs v s t = .ok w) :
    l = .string ∧ w = .str v.plain ∨
      l ≠ .string ∧ c.types.isScalar s = true ∧ c.types.toLiteral? s l v = some w := by
  have hplain : c.types.stripNullable s = s := by simp [Registry.stripNullable, hs]
  have hplain' : c.types.stripNullable t = t := by simp [Registry.stripNullable, ht]
  have hvariants : c.types.variants? t = none := by
    obtain ⟨rfl, -⟩ := Registry.literal_of_plain hl ht
    rfl
  simp only [scalarAs, hplain, hplain', hvariants, hl] at h
  by_cases hstring : l = .string
  · subst hstring
    exact .inl ⟨rfl, (Except.ok.inj h).symm⟩
  · right
    have hconverted : (if c.types.isScalar s then c.converted v s t
        else .error (c.cannotMap v s t)) = .ok w := by
      cases l <;> first | exact h | exact absurd rfl hstring
    split at hconverted
    · rename_i hscalar
      have hcast := Registry.castValue_eq_ok hv (converted_eq_ok hconverted)
      rw [hplain, hplain', hvariants, hl] at hcast
      rcases hcast with ⟨_, hsome, -⟩ | ⟨-, ⟨_, hsome, hcast⟩ | ⟨hnone, -⟩⟩
      · cases hsome
      · cases hsome
        exact ⟨hstring, hscalar, hcast⟩
      · cases hnone
    · cases hconverted

theorem scalarAs_hasShape (hs : c.types.underlying? s = none) (ht : c.types.underlying? t = none)
    (hne : s ≠ t) (hconversion : c.types.hasConversion s t = true) (hv : v.isNull = false)
    (hshape : c.types.HasShape v s) (h : c.scalarAs v s t = .ok w) : c.types.HasShape w t := by
  cases hvariants : c.types.variants? t with
  | some variants =>
      obtain ⟨name, hname, rfl⟩ := scalarAs_variant ht hvariants hv h
      exact .variant hvariants hname
  | none =>
      cases hl : c.types.literal? t with
      | none =>
          have hplain : c.types.stripNullable t = t := by simp [Registry.stripNullable, ht]
          simp [scalarAs, hplain, hvariants, hl] at h
      | some l =>
          refine .of_admits hl ht ?_
          rcases scalarAs_literal hs ht hl hv h with ⟨rfl, rfl⟩ | ⟨hstring, hscalar, hliteral⟩
          · rfl
          · simp only [Registry.hasConversion, hscalar, hl, Bool.not_true, Bool.false_or,
              Bool.or_eq_true, Bool.and_eq_true, beq_iff_eq] at hconversion
            rcases hconversion with heq | ((htext | hchar) | hnumeric) | ⟨hdate, hdate'⟩
            · exact absurd heq hne
            · exact absurd htext hstring
            · exact Registry.toLiteral?_admits (.inl hchar) hliteral
            · exact Registry.toLiteral?_admits (.inr hnumeric) hliteral
            · obtain ⟨l₁, hl₁, hcases⟩ := Registry.isDate_cases hdate
              obtain ⟨l₂, hl₂, hcases'⟩ := Registry.isDate_cases hdate'
              cases hl.symm.trans hl₂
              exact Registry.toLiteral?_date hcases' hcases (hshape.admits hl₁ hs hv) hliteral

/-! ## §4  Mapped values -/

/-- A record passes to what its type is assignable to, a lambda to a delegate or an `Object`; any
other value that is neither null nor a scalar is an `Object` to begin with. -/
theorem hasShape_of_assignable (hs : c.types.underlying? s = none)
    (ht : c.types.underlying? t = none)
    (hscalar : (c.types.isScalar s || c.types.isScalar t) = false) (hne : s ≠ t)
    (hv : v.isNull = false) (hlist : ∀ items, v ≠ .list items) (hshape : c.types.HasShape v s)
    (h : c.types.isAssignable s t = true) : c.types.HasShape v t := by
  rw [Bool.or_eq_false_iff] at hscalar
  cases hshape with
  | null => cases hv
  | nullable hs' =>
      rw [hs] at hs'
      cases hs'
  | object hfresh =>
      have hrecord : c.types.isRecord .object = false :=
        Registry.isRecord_of_constructed hfresh (by simp) (by simp)
      rcases Registry.isAssignable_cases hrecord h with
        heq | ⟨rfl, -⟩ | hnullable | ⟨hsequence, -⟩ | ⟨hdelegate, -⟩
      · exact absurd heq hne
      · exact absurd rfl hne
      · simp [ht] at hnullable
      · simp [Registry.isSequence, Registry.element?] at hsequence
      · cases hdelegate
  | literal hfresh =>
      simp [Registry.isScalar, Registry.isLiteral, Registry.literal?, hfresh] at hscalar
  | variant hs' =>
      simp [Registry.isScalar, Registry.isEnum, Registry.stripNullable, hs, hs'] at hscalar
  | record _ _ hown => exact .record hscalar.2 ht (Relation.ReflTransGen.tail hown h)
  | list => exact absurd rfl (hlist _)
  | lambda hs' =>
      have hrecord : c.types.isRecord s = false := by
        cases hrecord : c.types.isRecord s with
        | false => rfl
        | true =>
            rcases Registry.record_isRedefined_or hrecord with hred | ⟨id, rfl⟩ | ⟨g, args, rfl⟩
            · cases s <;> simp [Registry.isDelegate, Registry.signature?, hred] at hs'
            · cases hs'
            · cases hs'
      rcases Registry.isAssignable_cases hrecord h with
        heq | ⟨rfl, hfresh⟩ | hnullable | ⟨hsequence, -⟩ | ⟨-, hdelegate⟩
      · exact absurd heq hne
      · exact .object hfresh
      · simp [ht] at hnullable
      · cases s <;>
          simp [Registry.isDelegate, Registry.signature?, Registry.isSequence,
            Registry.element?] at hs' hsequence
      · exact .lambda hdelegate

theorem itemsAs_hasShape {f : ValueMapping}
    (hf : ∀ {v w}, c.types.HasShape v s → f v s t = .ok w → c.types.HasShape w t) :
    ∀ {vs ws : List Value}, (∀ v ∈ vs, c.types.HasShape v s) → itemsAs f s t vs = .ok ws →
      ∀ w ∈ ws, c.types.HasShape w t
  | [], ws, _, h, w, hw => by
      cases h
      cases hw
  | v :: vs, ws, hvs, h, w, hw => by
      simp only [itemsAs, Checked.bind_eq_ok] at h
      obtain ⟨x, hx, xs, hxs, h⟩ := h
      cases h
      rcases List.mem_cons.mp hw with rfl | hw
      · exact hf (hvs v (by simp)) hx
      · exact itemsAs_hasShape hf (fun u hu => hvs u (by simp [hu])) hxs w hw

theorem recordAs_eq_ok {f : ValueMapping} {m : Mapping} (h : c.recordAs f m v = .ok w) :
    ∃ fields, w = .record m.destination fields := by
  simp only [recordAs, Checked.bind_eq_ok] at h
  obtain ⟨fields, -, h⟩ := h
  cases h
  exact ⟨fields, rfl⟩

theorem mappingFor?_destination {m : Mapping} (h : c.mappingFor? v s t = some m) :
    m.destination = t := by
  unfold mappingFor? at h
  split at h
  · rcases Option.or_eq_some_iff.mp h with h | ⟨-, h⟩ <;> exact (mapping?_mem h).2.2
  · cases h

theorem objectAs_hasShape {f : ValueMapping} (hs : c.types.underlying? s = none)
    (ht : c.types.underlying? t = none)
    (hscalar : (c.types.isScalar s || c.types.isScalar t) = false) (hne : s ≠ t)
    (hv : v.isNull = false)
    (hf : ∀ {e e' v w}, c.types.element? s = some e → c.types.element? t = some e' →
      c.types.HasShape v e → f v e e' = .ok w → c.types.HasShape w e')
    (hshape : c.types.HasShape v s) (h : c.objectAs f v s t = .ok w) : c.types.HasShape w t := by
  unfold objectAs at h
  split at h
  · rename_i m hm
    obtain ⟨fields, rfl⟩ := recordAs_eq_ok h
    rw [mappingFor?_destination hm]
    exact .record (Bool.or_eq_false_iff.mp hscalar).2 ht .refl
  · split at h
    · split at h
      · rename_i e e' he he'
        obtain ⟨ws, hws, rfl⟩ := Checked.map_eq_ok.mp h
        exact .list he' (itemsAs_hasShape (hf he he') (hshape.items he) hws)
      · cases h
    · split at h
      · rename_i hassignable
        cases h
        exact hasShape_of_assignable hs ht hscalar hne hv (by simp) hshape hassignable
      · cases h
    · rename_i hlist _
      split at h
      · rename_i hassignable
        cases h
        exact hasShape_of_assignable hs ht hscalar hne hv hlist hshape hassignable
      · cases h

theorem valueWithin_hasShape : ∀ {n : Nat} {v w : Value} {s t : Ty}, c.types.KeepsKind s t →
    c.types.HasShape v s → c.valueWithin n v s t = .ok w → c.types.HasShape w t
  | 0, _, _, _, _, _, _, h => by cases h
  | n + 1, v, w, s, t, hkeeps, hshape, h => by
      by_cases hne : s = t
      · subst hne
        rw [valueWithin_self] at h
        exact Except.ok.inj h ▸ hshape
      cases hv : v.isNull with
      | true =>
          rw [Value.eq_null hv, valueWithin_null hne] at h
          exact Except.ok.inj h ▸ .null
      | false =>
          cases hs : c.types.underlying? s with
          | some u =>
              rw [valueWithin_source hne hv hs] at h
              have hcore := (Registry.core_of_underlying? hs).symm
              exact valueWithin_hasShape (hkeeps.congr hcore rfl) (hshape.underlying hs) h
          | none =>
              cases ht : c.types.underlying? t with
              | some u =>
                  rw [valueWithin_target hne hv hs ht] at h
                  have hcore := (Registry.core_of_underlying? ht).symm
                  exact .nullable ht (valueWithin_hasShape (hkeeps.congr rfl hcore) hshape h)
              | none =>
                  rw [valueWithin_plain hne hv hs ht, plainAs] at h
                  obtain ⟨hconversion, helements⟩ := hkeeps
                  rw [Registry.core_of_not_nullable hs, Registry.core_of_not_nullable ht]
                    at hconversion helements
                  split at h
                  · exact scalarAs_hasShape hs ht hne hconversion hv hshape h
                  · rename_i hscalar
                    refine objectAs_hasShape hs ht (Bool.eq_false_iff.mpr hscalar) hne hv ?_ hshape h
                    intro e e' v w he he' hitem hw
                    exact valueWithin_hasShape (helements e e' he he') hitem hw

/-- Mapped values have the shape of the target type. -/
theorem valueAs_hasShape (hkeeps : c.types.KeepsKind s t) (hv : c.types.HasShape v s)
    (h : c.valueAs v s t = .ok w) : c.types.HasShape w t :=
  valueWithin_hasShape hkeeps hv h

/-- Characters, one of them missing, as their codes. -/
theorem valueAs_hasShape_codes :
    (Configuration.mk .standard []).valueAs (.list [.null, .char 'a'])
        (.array (.nullable (.literal .char))) (.seq .list .int32) = .ok (.list [.null, .int 97]) ∧
      Registry.standard.HasShape (.list [.null, .int 97]) (.seq .list .int32) := by
  have hkeeps : Registry.standard.KeepsKind (.array (.nullable (.literal .char)))
      (.seq .list .int32) := by
    refine .mk rfl fun e e' he he' => ?_
    cases he
    cases he'
    exact .mk rfl fun e e' he he' => by cases he
  have hshape : Registry.standard.HasShape (.list [.null, .char 'a'])
      (.array (.nullable (.literal .char))) := by
    refine .list rfl fun v hv => ?_
    simp only [List.mem_cons, List.not_mem_nil, or_false] at hv
    rcases hv with rfl | rfl
    · exact .null
    · exact .nullable rfl (.literal rfl rfl)
  exact ⟨rfl, valueAs_hasShape (c := ⟨.standard, []⟩) hkeeps hshape rfl⟩

/-- A number as a `Boolean` is refused by no conversion and stays a number. -/
theorem valueAs_hasShape_fails : ¬ ∀ (c : Configuration) (v w : Value) (s t : Ty),
    c.types.HasShape v s → c.valueAs v s t = .ok w → c.types.HasShape w t := by
  intro h
  have hshape : Registry.standard.HasShape (.int 5) .int32 := .literal rfl rfl
  have hnumber := h ⟨.standard, []⟩ (.int 5) (.int 5) .int32 .boolean hshape rfl
  cases hnumber.admits (l := .boolean) rfl rfl rfl

end Configuration

end Recast
