import Recast.Eval.Basic
import Recast.Proofs.Conformance
import Recast.Proofs.Lockstep

/-! # Results of operators

Operators, members and methods of values end with a value of the type that the checked
constructors derive for them, if they are given values of the types of the operands.
The literals under the types say what is computed.

- `BinaryOp.Computes` — the literals that an arithmetic operator goes between.
- `Registry.operatorValue_conforms`, `negation_conforms`, `negated_conforms` —
  operators.
- `Registry.valueMember_conforms` — members.
- `Registry.operatorResult_conforms`, `objectMethod_conforms`, … — methods whose
  signatures are honest.
-/

namespace Recast

/-! ## §1  Operators -/

namespace Literal

variable {l : Literal}

@[simp] theorem admits_bool {b : Bool} : l.admits (.bool b) = true ↔ l = .boolean := by
  cases l <;> simp [admits]

@[simp] theorem admits_number {n : Num} : l.admits (.num n) = true ↔ l.isNumeric = true := by
  cases l <;> simp [admits, isNumeric, isIntegral, isFractional]

@[simp] theorem admits_str {s : String} : l.admits (.str s) = true ↔ l = .string := by
  cases l <;> simp [admits]

@[simp] theorem admits_char {c : Char} : l.admits (.char c) = true ↔ l = .char := by
  cases l <;> simp [admits]

@[simp] theorem admits_guid {g : Guid} : l.admits (.guid g) = true ↔ l = .guid := by
  cases l <;> simp [admits]

@[simp] theorem admits_timeSpan {s : Span} : l.admits (.timeSpan s) = true ↔ l = .timeSpan := by
  cases l <;> simp [admits]

@[simp] theorem admits_dateTime {d : LocalTime} :
    l.admits (.dateTime d) = true ↔ l = .dateTime := by
  cases l <;> simp [admits]

@[simp] theorem admits_dateTimeOffset {d : OffsetTime} :
    l.admits (.dateTimeOffset d) = true ↔ l = .dateTimeOffset := by
  cases l <;> simp [admits]

/-- A value that is no number is of one literal type. -/
theorem admits_unique {l' : Literal} {v : Value} (hl : l.isNumeric = false) (hv : l.admits v = true)
    (hv' : l'.admits v = true) : l = l' := by
  cases v with
  | num n => simp [hl] at hv
  | bool | char | str | guid | timeSpan | dateTime | dateTimeOffset => simp_all
  | _ => simp [admits] at hv

/-- Null, or of the kind that the literal type holds. -/
def Holds (l : Literal) (v : Value) : Prop := v = .null ∨ l.admits v = true

end Literal

/-- The literals that an arithmetic operator takes and what it makes of them. -/
def BinaryOp.Computes (op : BinaryOp) (left right result : Literal) : Prop :=
  left = right ∧ result = left ∧
      (left.isNumeric = true ∨ left = .timeSpan ∧ (op = .add ∨ op = .subtract)) ∨
    op = .add ∧ left = .string ∧ right = .string ∧ result = .string ∨
    op = .add ∧ left = .dateTime ∧ right = .timeSpan ∧ result = .dateTime ∨
    op = .subtract ∧ left = right ∧ (left = .dateTime ∨ left = .dateTimeOffset) ∧ result = .timeSpan

theorem checked_holds {op : String} {n : Int} {v : Value} {l : Literal} (hl : l.isNumeric = true)
    (h : checked op n = .ok v) : l.Holds v := by
  unfold checked at h
  split at h
  · cases h
    exact .inr (Literal.admits_number.mpr hl)
  · cases h

theorem integerArithmetic_holds {op : BinaryOp} {a b : Int} {v : Value} {l : Literal}
    (hl : l.isNumeric = true) (h : integerArithmetic op a b = .ok v) : l.Holds v := by
  unfold integerArithmetic at h
  split at h
  · exact checked_holds hl h
  · exact checked_holds hl h
  · split at h
    · cases h
    · exact checked_holds hl h
  · split at h
    · cases h
    · exact checked_holds hl h
  · exact checked_holds hl h

theorem arithmetic?_holds {integral : Bool} {op : BinaryOp} {a b v : Value} {l l' k : Literal}
    (hop : op.Computes l l' k) (ha : l.Holds a) (hb : l'.Holds b)
    (h : arithmetic? integral op a b = some (.ok v)) : k.Holds v := by
  have hpure : ∀ {w : Value}, k.Holds w → some (.ok w : Except EvalError Value) = some (.ok v) →
      k.Holds v := by
    rintro w hw ⟨⟩
    exact hw
  have hkind : ∀ {x : Literal} {w : Value}, x.Holds w → w ≠ .null → x.admits w = true :=
    fun hw hne => hw.resolve_left hne
  unfold arithmetic? at h
  split at h
  · exact hpure (.inl rfl) h
  · exact hpure (.inl rfl) h
  · split_ifs at h
    obtain rfl := Literal.admits_str.mp (hkind ha nofun)
    refine hpure (.inr (Literal.admits_str.mpr ?_)) h
    rcases hop with ⟨-, rfl, -⟩ | ⟨-, -, -, rfl⟩ | ⟨-, hl, -⟩ | ⟨-, -, hl | hl, -⟩
    · rfl
    · rfl
    all_goals cases hl
  · have hnumeric := Literal.admits_number.mp (hkind ha nofun)
    have hresult : k.isNumeric = true := by
      rcases hop with ⟨-, rfl, -⟩ | ⟨-, rfl, -⟩ | ⟨-, rfl, -⟩ | ⟨-, -, rfl | rfl, -⟩
      · exact hnumeric
      all_goals cases hnumeric
    split_ifs at h
    · exact integerArithmetic_holds hresult (Option.some.inj h)
    · exact hpure (Registry.float_admits hresult _) h
  · split_ifs at h
    obtain rfl := Literal.admits_dateTime.mp (hkind ha nofun)
    obtain rfl := Literal.admits_timeSpan.mp (hkind hb nofun)
    refine hpure (.inr (Literal.admits_dateTime.mpr ?_)) h
    rcases hop with ⟨hl, -⟩ | ⟨-, hl, -⟩ | ⟨-, -, -, rfl⟩ | ⟨-, hl, -⟩
    · cases hl
    · cases hl
    · rfl
    · cases hl
  · split_ifs at h with hsub
    obtain rfl := Literal.admits_dateTime.mp (hkind ha nofun)
    obtain rfl := Literal.admits_dateTime.mp (hkind hb nofun)
    refine hpure (.inr (Literal.admits_timeSpan.mpr ?_)) h
    rcases hop with ⟨-, -, hl | ⟨hl, -⟩⟩ | ⟨-, hl, -⟩ | ⟨-, -, hl, -⟩ | ⟨-, -, -, rfl⟩
    · cases hl
    · cases hl
    · cases hl
    · cases hl
    · rfl
  · split_ifs at h
    obtain rfl := Literal.admits_dateTimeOffset.mp (hkind ha nofun)
    refine hpure (.inr (Literal.admits_timeSpan.mpr ?_)) h
    rcases hop with ⟨-, -, hl | ⟨hl, -⟩⟩ | ⟨-, hl, -⟩ | ⟨-, hl, -⟩ | ⟨-, -, -, rfl⟩
    · cases hl
    · cases hl
    · cases hl
    · cases hl
    · rfl
  · obtain rfl := Literal.admits_timeSpan.mp (hkind ha nofun)
    have hresult : k = .timeSpan := by
      rcases hop with ⟨-, rfl, -⟩ | ⟨-, hl, -⟩ | ⟨-, hl, -⟩ | ⟨-, -, hl | hl, -⟩
      · rfl
      all_goals cases hl
    split_ifs at h
    · exact hpure (.inr (Literal.admits_timeSpan.mpr hresult)) h
    · exact hpure (.inr (Literal.admits_timeSpan.mpr hresult)) h
  · cases h

theorem connective_holds {op : BinaryOp} {a b v : Value} {l : Literal} (ha : l.Holds a)
    (h : connective op a b = .ok v) : l.Holds v := by
  unfold connective at h
  split at h
  · cases h
    have hboolean := Literal.admits_bool.mp (ha.resolve_left nofun)
    exact .inr (Literal.admits_bool.mpr hboolean)
  · cases h
    exact .inl rfl
  · cases h
    exact .inl rfl
  · cases h

namespace Registry

section Operators

variable {r : Registry} {Γ : Nat → Option Ty}
variable {v w a b : Value} {s t left right : Ty}

theorem literal?_nullable (hr : r.Nominal) : r.literal? (r.nullable t) = r.literal? t := by
  have hfresh : r.isRedefined (.nullable t) = false := hr.fresh _ rfl
  unfold nullable
  split
  · simp [literal?, hfresh]
  · rfl

theorem literal?_lifted (hr : r.Nominal) : r.literal? (r.lifted left right t) = r.literal? t := by
  unfold lifted
  split
  · exact literal?_nullable hr
  · rfl

theorem commonLiteral?_eq_some {l : Literal} (h : r.commonLiteral? left right = some l) :
    r.literal? left = some l ∧ r.literal? right = some l := by
  unfold commonLiteral? at h
  split at h
  · rename_i hsame
    have hright := hsame ▸ h
    rw [literal?_stripNullable] at h hright
    exact ⟨h, hright⟩
  · cases h

theorem conforms_bool (hr : r.Nominal) (b : Bool) : r.Conforms Γ (.bool b) .boolean :=
  .literal (hr.fresh _ rfl) rfl

theorem conforms_int (hr : r.Nominal) (n : Int) : r.Conforms Γ (.int n) .int32 :=
  .literal (hr.fresh _ rfl) rfl

theorem conforms_str (hr : r.Nominal) (s : String) : r.Conforms Γ (.str s) .string :=
  .literal (hr.fresh _ rfl) rfl

/-- What the types of an arithmetic operation come down to. -/
theorem resultType?_computes {op : BinaryOp} (hop : op.isArithmetic = true)
    (h : r.resultType? op left right = some t) :
    ∃ l l' k, r.literal? left = some l ∧ r.literal? right = some l' ∧ op.Computes l l' k ∧
      (r.Nominal → r.literal? t = some k) := by
  have hplain : ∀ {l}, r.commonLiteral? left right = some l → r.Nominal →
      r.literal? (r.lifted left right (r.stripNullable left)) = some l := fun hl hr => by
    rw [literal?_lifted hr, literal?_stripNullable]
    exact (commonLiteral?_eq_some hl).1
  cases op with
  | add =>
      simp only [resultType?] at h
      split_ifs at h with hstring hnumber hdate
      · obtain ⟨hl, hl'⟩ := commonLiteral?_eq_some hstring
        cases h
        refine ⟨_, _, _, hl, hl', .inr (.inl ⟨rfl, rfl, rfl, rfl⟩), fun hr => ?_⟩
        simp [literal?, hr.fresh (.literal .string) rfl]
      · obtain ⟨l, hl, hcases⟩ := (Option.any_eq_true _ _).mp hnumber
        cases h
        obtain ⟨hleft, hright⟩ := commonLiteral?_eq_some hl
        refine ⟨l, l, l, hleft, hright, .inl ⟨rfl, rfl, ?_⟩, hplain hl⟩
        simpa using hcases
      · cases h
        rw [literal?_stripNullable, literal?_stripNullable] at hdate
        refine ⟨_, _, _, hdate.1, hdate.2, .inr (.inr (.inl ⟨rfl, rfl, rfl, rfl⟩)), fun hr => ?_⟩
        rw [literal?_lifted hr, literal?_stripNullable]
        exact hdate.1
  | subtract =>
      simp only [resultType?] at h
      split_ifs at h with hnumber hdate
      · obtain ⟨l, hl, hcases⟩ := (Option.any_eq_true _ _).mp hnumber
        cases h
        obtain ⟨hleft, hright⟩ := commonLiteral?_eq_some hl
        refine ⟨l, l, l, hleft, hright, .inl ⟨rfl, rfl, ?_⟩, hplain hl⟩
        simpa using hcases
      · obtain ⟨l, hl, hcases⟩ := (Option.any_eq_true _ _).mp hdate
        cases h
        obtain ⟨hleft, hright⟩ := commonLiteral?_eq_some hl
        refine ⟨l, l, .timeSpan, hleft, hright, .inr (.inr (.inr ⟨rfl, rfl, ?_, rfl⟩)),
          fun hr => ?_⟩
        · simpa using hcases
        · rw [literal?_lifted hr]
          simp [literal?, hr.fresh (.literal .timeSpan) rfl]
  | multiply | divide | modulo =>
      simp only [resultType?] at h
      split_ifs at h with hnumber
      obtain ⟨l, hl, hcases⟩ := (Option.any_eq_true _ _).mp hnumber
      cases h
      obtain ⟨hleft, hright⟩ := commonLiteral?_eq_some hl
      exact ⟨l, l, l, hleft, hright, .inl ⟨rfl, rfl, .inl hcases⟩, hplain hl⟩
  | _ => cases hop

/-- The operands of a logical operator and its result are of one literal type, which holds truth
values or integers. -/
theorem resultType?_logical {op : BinaryOp}
    (hop : op = .and ∨ op = .or ∨ op = .andAlso ∨ op = .orElse)
    (h : r.resultType? op left right = some t) :
    ∃ l, r.literal? left = some l ∧ r.literal? right = some l ∧
      (l = .boolean ∨ (op = .and ∨ op = .or) ∧ l.isIntegral = true) ∧
      (r.Nominal → r.literal? t = some l) := by
  have hlifted : ∀ {l}, r.commonLiteral? left right = some l →
      l = .boolean ∨ (op = .and ∨ op = .or) ∧ l.isIntegral = true →
      some (r.lifted left right (r.stripNullable left)) = some t →
      ∃ l, r.literal? left = some l ∧ r.literal? right = some l ∧
        (l = .boolean ∨ (op = .and ∨ op = .or) ∧ l.isIntegral = true) ∧
        (r.Nominal → r.literal? t = some l) := by
    intro l hl hcases ht
    obtain ⟨hleft, hright⟩ := commonLiteral?_eq_some hl
    refine ⟨l, hleft, hright, hcases, fun hr => ?_⟩
    rw [← Option.some.inj ht, literal?_lifted hr, literal?_stripNullable]
    exact hleft
  rcases hop with rfl | rfl | rfl | rfl <;>
  · simp only [resultType?] at h
    split at h
    · rename_i hcommon
      first
        | exact hlifted hcommon (.inl rfl) h
        | obtain ⟨l, hl, hcases⟩ := (Option.any_eq_true _ _).mp hcommon
          exact hlifted hl (by simpa using hcases) h
    · cases h

theorem operatorValue_conforms (hr : r.Nominal) {op : BinaryOp} {integral : Bool}
    (hop : op ≠ .andAlso ∧ op ≠ .orElse ∧ op ≠ .coalesce)
    (ht : r.resultType? op left right = some t) (ha : r.Conforms Γ a left)
    (hb : r.Conforms Γ b right) (h : operatorValue integral op a b = .ok v) : r.Conforms Γ v t := by
  have harithmetic : op.isArithmetic = true → ∀ {result},
      arithmetic? integral op a b = some result → result = .ok v → r.Conforms Γ v t := by
    intro hop' result hresult hok
    subst hok
    obtain ⟨l, l', k, hl, hl', hcomputes, hk⟩ := resultType?_computes hop' ht
    have ha' := (conforms_of_literal? hr hl).mp ha
    have hb' := (conforms_of_literal? hr hl').mp hb
    exact (conforms_of_literal? hr (hk hr)).mpr (arithmetic?_holds hcomputes ha' hb' hresult)
  have hboolean : ∀ x, t = .boolean → v = .bool x → r.Conforms Γ v t := by
    rintro x rfl rfl
    exact conforms_bool hr x
  cases op with
  | equal | notEqual =>
      simp only [resultType?] at ht
      split at ht <;> cases ht
      exact hboolean _ rfl (Except.ok.inj h).symm
  | lessThan | lessThanOrEqual | greaterThan | greaterThanOrEqual =>
      simp only [resultType?] at ht
      split at ht <;> cases ht
      simp only [operatorValue] at h
      split at h
      · exact hboolean _ rfl (Except.ok.inj h).symm
      · split at h
        · exact hboolean _ rfl (Except.ok.inj h).symm
        · cases h
  | and | or =>
      obtain ⟨l, hl, -, -, ht⟩ := resultType?_logical (by simp) ht
      have ha' := (conforms_of_literal? hr hl).mp ha
      refine (conforms_of_literal? hr (ht hr)).mpr ?_
      simp only [operatorValue] at h
      split at h
      · cases h
        have hnumeric := Literal.admits_number.mp (ha'.resolve_left (by simp))
        exact .inr (Literal.admits_number.mpr hnumeric)
      · exact connective_holds ha' h
  | arrayIndex =>
      simp only [resultType?] at ht
      split at ht
      · simp only [operatorValue] at h
        split at h
        · rename_i i items _ hitems
          split at h
          · rename_i x hx
            cases h
            cases a <;> simp only [Value.asList?, reduceCtorEq, Option.some.injEq] at hitems
            subst hitems
            split_ifs at hx
            exact ha.item ht (List.mem_of_getElem? hx)
          · cases h
        · cases h
      · cases ht
  | andAlso | orElse | coalesce => simp at hop
  | add | subtract | multiply | divide | modulo =>
      simp only [operatorValue] at h
      split at h
      · rename_i result hresult
        exact harithmetic rfl hresult h
      · cases h

theorem negation_conforms (hr : r.Nominal) {l : Literal} (ht : r.literal? t = some l)
    (hv : r.Conforms Γ v t) (h : negation v = .ok w) : r.Conforms Γ w t := by
  have hv' := (conforms_of_literal? hr ht).mp hv
  refine (conforms_of_literal? hr ht).mpr ?_
  unfold negation at h
  split at h
  · cases h
    exact .inr (Literal.admits_bool.mpr (Literal.admits_bool.mp (hv'.resolve_left nofun)))
  · cases h
    exact .inl rfl
  · cases h
    exact .inr (Literal.admits_number.mpr (Literal.admits_number.mp (hv'.resolve_left nofun)))
  · cases h

theorem negated_conforms (hr : r.Nominal) {l : Literal} (ht : r.literal? t = some l)
    (hv : r.Conforms Γ v t) (h : negated v = .ok w) : r.Conforms Γ w t := by
  have hv' := (conforms_of_literal? hr ht).mp hv
  refine (conforms_of_literal? hr ht).mpr ?_
  unfold negated at h
  split at h
  · cases h
    exact .inl rfl
  · cases h
    exact .inr (Literal.admits_timeSpan.mpr (Literal.admits_timeSpan.mp (hv'.resolve_left nofun)))
  · have hnumeric := Literal.admits_number.mp (hv'.resolve_left nofun)
    split at h
    · exact checked_holds hnumeric h
    · cases h
      exact float_admits hnumeric _
  · cases h

end Operators

/-! ## §2  Members -/

section Members

variable {r : Registry} {Γ : Nat → Option Ty} {v w : Value} {t : Ty} {m : Member} {name : String}

/-- A list counts its items, under the one name or the other. -/
theorem Conforms.list_member {items : List Value} (h : r.Conforms Γ (.list items) t)
    (ht : r.underlying? t = none) (hm : r.member? t name = some m) : m.ty = .int32 := by
  cases h with
  | nullable ht' =>
      rw [ht] at ht'
      cases ht'
  | object hfresh =>
      rw [member?_builtin hfresh (by simp) (by simp) (by simp)] at hm
      cases hm
  | literal _ hv => simp [Literal.admits] at hv
  | list he =>
      rcases element?_kind.mp he with hk | ⟨kind, hk⟩ | ⟨k, v, hk, -⟩ <;>
      · obtain ⟨rfl, hfresh⟩ := kind?_eq_built.mp hk
        exact ty_of_container_member hfresh (by simp [Shape.ty]) hm

/-- A text or a date is seen as what it is when a member is read off it. -/
theorem Conforms.literal_member {l : Literal} (h : r.Conforms Γ v t) (ht : r.underlying? t = none)
    (hm : r.member? t name = some m) (hv : l.admits v = true) (hl : l.isNumeric = false) :
    builtinMember? (.literal l) name = some m.ty := by
  cases h with
  | nullable ht' =>
      rw [ht] at ht'
      cases ht'
  | object hfresh =>
      rw [member?_builtin hfresh (by simp) (by simp) (by simp)] at hm
      cases hm
  | literal hfresh hv' =>
      obtain rfl := Literal.admits_unique hl hv hv'
      rw [member?_builtin hfresh (by simp) (by simp) (by simp)] at hm
      obtain ⟨ty, hty, rfl⟩ := Option.map_eq_some_iff.mp hm
      exact hty
  | _ => simp [Literal.admits] at hv

theorem dateMember?_conforms (hr : r.Nominal) {time : LocalTime} {ty : Ty} {l : Literal}
    (hl : l = .dateTime ∨ l = .dateTimeOffset) (hty : builtinMember? (.literal l) name = some ty)
    (hw : dateMember? time name = some w) : r.Conforms Γ w ty := by
  rcases builtinMember?_literal hty with ⟨rfl, -⟩ | ⟨-, ⟨hname, rfl⟩ | ⟨rfl, rfl⟩⟩
  · rcases hl with hl | hl <;> cases hl
  · rcases hname with rfl | rfl | rfl <;>
    · cases hw
      exact conforms_int hr _
  · cases hw
    exact .literal (hr.fresh _ rfl) rfl

/-- What is read off a value is of the type of the member. -/
theorem valueMember_conforms (hr : r.Nominal) (hv : r.Conforms Γ v t)
    (hm : r.member? t name = some m)
    (h : valueMember (r.underlying? t).isSome v name = .ok w) : r.Conforms Γ w m.ty := by
  cases ht : r.underlying? t with
  | some u =>
      obtain ⟨rfl, hfresh⟩ := underlying?_eq_some ht
      have hbuiltin := hm
      rw [member?_builtin hfresh (by simp) (by simp) (by simp)] at hbuiltin
      obtain ⟨ty, hty, rfl⟩ := Option.map_eq_some_iff.mp hbuiltin
      rw [ht] at h
      rcases builtinMember?_nullable hty with rfl | rfl
      · cases hty
        cases h
        exact conforms_bool hr _
      · cases hty
        simp only [valueMember, Option.isSome_some, Bool.true_and] at h
        rw [if_neg (by decide)] at h
        split at h
        · cases h
        · cases h
          exact hv.of_underlying hr ht
  | none =>
      rw [ht] at h
      simp only [valueMember, Option.isSome_none, Bool.false_and, Bool.false_eq_true,
        if_false] at h
      split at h
      · cases h
      · split at h
        · rename_i x hx
          obtain rfl := Except.ok.inj h
          unfold ownMember? at hx
          split at hx
          · exact hv.field ht hm (Value.mem_of_lookup hx)
          · split at hx
            · cases hx
              rw [hv.list_member ht hm]
              exact conforms_int hr _
            · cases hx
          · split at hx
            · rename_i hname
              subst hname
              cases hx
              have hty : Ty.int32 = m.ty :=
                Option.some.inj (hv.literal_member (l := .string) ht hm rfl rfl)
              rw [← hty]
              exact conforms_int hr _
            · cases hx
          · have hty := hv.literal_member (l := .dateTime) ht hm rfl rfl
            exact dateMember?_conforms hr (.inl rfl) hty hx
          · have hty := hv.literal_member (l := .dateTimeOffset) ht hm rfl rfl
            exact dateMember?_conforms hr (.inr rfl) hty hx
          · cases hx
        · cases h

end Members

/-! ## §3  Methods -/

end Registry

section TextMethods

variable {m : Method} {text : String} {args : List Value} {v w : Value}

/-- The methods of texts test them or change them. -/
theorem textMethod_cases (h : textMethod m text args = .ok w) :
    (["StartsWith", "EndsWith", "Contains", "Equals"].contains m.name = true ∧ ∃ b, w = .bool b) ∨
      ["ToUpper", "ToLower", "Trim", "ToString"].contains m.name = true ∧ ∃ s, w = .str s := by
  have htest : ∀ {f : List Char → Bool},
      (textArgument args).map (fun t => Value.bool (f t)) = .ok w → ∃ b, w = .bool b := by
    intro f h
    obtain ⟨t, -, rfl⟩ := Checked.map_eq_ok.mp h
    exact ⟨f t, rfl⟩
  unfold textMethod at h
  split at h
  · exact .inl ⟨by simp [*], htest h⟩
  · exact .inl ⟨by simp [*], htest h⟩
  · exact .inl ⟨by simp [*], htest h⟩
  · exact .inl ⟨by simp [*], htest h⟩
  · exact .inr ⟨by simp [*], _, (Except.ok.inj h).symm⟩
  · exact .inr ⟨by simp [*], _, (Except.ok.inj h).symm⟩
  · exact .inr ⟨by simp [*], _, (Except.ok.inj h).symm⟩
  · exact .inr ⟨by simp [*], _, (Except.ok.inj h).symm⟩
  · cases h

theorem objectMethod_cases (h : objectMethod m v args = .ok w) :
    m.name = "Equals" ∧ (∃ b, w = .bool b) ∨ m.name = "ToString" ∧ ∃ s, w = .str s := by
  unfold objectMethod at h
  split at h
  · exact .inr ⟨by assumption, _, (Except.ok.inj h).symm⟩
  · exact .inl ⟨by assumption, _, (Except.ok.inj h).symm⟩
  · exact .inl ⟨by assumption, _, (Except.ok.inj h).symm⟩
  · cases h

end TextMethods

namespace Registry

section Methods

variable {r : Registry} {Γ : Nat → Option Ty} {m : Method} {v w : Value} {args : List Value}

theorem closeMethod?_eq_some {d : MethodSig} {typeArgs : List Ty}
    (h : r.closeMethod? d typeArgs = some m) :
    m.params = d.params.map (r.substitute typeArgs) ∧ m.ret = r.substitute typeArgs d.ret := by
  unfold closeMethod? at h
  split at h
  · obtain rfl := Option.some.inj h
    exact ⟨rfl, rfl⟩
  · cases h

/-- Honest methods of values return truth values and texts. -/
theorem ret_of_valueHonest (hm : r.closeMethod? m.definition m.typeArgs = some m)
    (hhonest : m.definition.valueHonest = true) :
    (["StartsWith", "EndsWith", "Contains", "Equals"].contains m.name = true → m.ret = .boolean) ∧
      (["ToUpper", "ToLower", "Trim", "ToString"].contains m.name = true → m.ret = .string) := by
  rw [(closeMethod?_eq_some hm).2]
  unfold MethodSig.valueHonest at hhonest
  unfold Method.name
  constructor <;> intro hname
  all_goals
    simp only [List.contains_cons, List.contains_nil, Bool.or_false, Bool.or_eq_true,
      beq_iff_eq] at hname
    rcases hname with hname | hname | hname | hname <;>
    · rw [hname] at hhonest
      rw [beq_iff_eq.mp hhonest]
      rfl

theorem textMethod_conforms (hr : r.Nominal) (hm : r.closeMethod? m.definition m.typeArgs = some m)
    (hhonest : m.definition.valueHonest = true) {text : String}
    (h : textMethod m text args = .ok w) : r.Conforms Γ w m.ret := by
  obtain ⟨hboolean, hstring⟩ := ret_of_valueHonest hm hhonest
  rcases textMethod_cases h with ⟨hname, b, rfl⟩ | ⟨hname, s, rfl⟩
  · exact hboolean hname ▸ conforms_bool hr b
  · exact hstring hname ▸ conforms_str hr s

theorem objectMethod_conforms (hr : r.Nominal)
    (hm : r.closeMethod? m.definition m.typeArgs = some m)
    (hhonest : m.definition.valueHonest = true) (h : objectMethod m v args = .ok w) :
    r.Conforms Γ w m.ret := by
  obtain ⟨hboolean, hstring⟩ := ret_of_valueHonest hm hhonest
  rcases objectMethod_cases h with ⟨hname, b, rfl⟩ | ⟨hname, s, rfl⟩
  · exact hboolean (by simp [hname]) ▸ conforms_bool hr b
  · exact hstring (by simp [hname]) ▸ conforms_str hr s

/-- A value of the type of the items of the sequence. -/
def IsItem (r : Registry) (Γ : Nat → Option Ty) (typeArgs : List Ty) (v : Value) : Prop :=
  r.Conforms Γ v (r.substitute typeArgs (.param 0))

/-- A value of the type that the lambda after the sequence answers with, if there is one. -/
def IsAnswer (r : Registry) (Γ : Nat → Option Ty) (d : MethodSig) (typeArgs : List Ty)
    (v : Value) : Prop :=
  ∀ t ∈ d.answer?, r.Conforms Γ v (r.substitute typeArgs t)

/-- What an honest operator ends with is of the type that it returns. -/
theorem operatorResult_conforms (hr : r.Nominal) {d : MethodSig} {typeArgs : List Ty}
    (hd : d.sequenceHonest = true)
    (h : operatorResult (r.IsItem Γ typeArgs) (r.IsAnswer Γ d typeArgs) d.name v) :
    r.Conforms Γ v (r.substitute typeArgs d.ret) := by
  have hseq : ∀ {kind t items}, (∀ w ∈ items, r.Conforms Γ w (r.substitute typeArgs t)) →
      r.Conforms Γ (.list items) (r.substitute typeArgs (.seq kind t)) := by
    intro kind t items hitems
    have hfresh : ∀ u, r.isRedefined (.seq kind u) = false := fun u => hr.fresh _ rfl
    rw [substitute, if_neg (by simp [hfresh])]
    exact .list (by simp [element?, hfresh]) hitems
  unfold MethodSig.sequenceHonest at hd
  replace hd := (Bool.and_eq_true _ _ |>.mp hd).2
  split at hd
  case h_1 | h_2 | h_3 =>
    rename_i hname
    rw [hname] at h
    obtain ⟨b, rfl⟩ := h
    rw [beq_iff_eq.mp hd]
    exact conforms_bool hr b
  case h_4 | h_5 =>
    rename_i hname
    rw [hname] at h
    obtain ⟨n, rfl⟩ := h
    rw [beq_iff_eq.mp hd]
    exact conforms_int hr n
  case h_6 | h_7 | h_8 | h_9 | h_10 =>
    rename_i hname hret
    rw [hname] at h
    obtain ⟨items, rfl, hitems⟩ := h
    rw [hret, beq_iff_eq.mp hd]
    exact hseq hitems
  case h_11 =>
    rename_i hname hret
    rw [hname] at h
    obtain ⟨answers, rfl, hanswers⟩ := h
    rw [hret]
    exact hseq fun w hw => hanswers w hw _ (beq_iff_eq.mp hd)
  case h_12 =>
    rename_i hname
    rw [hname] at h
    rw [beq_iff_eq.mp hd]
    exact h
  case h_13 =>
    rename_i hname
    rw [hname] at h
    rw [beq_iff_eq.mp hd]
    rcases h with rfl | h
    · exact .null
    · exact h
  case h_14 | h_15 =>
    rename_i hname
    rw [hname] at h
    exact h _ (beq_iff_eq.mp hd)
  case h_16 => cases hd

end Methods

end Registry

end Recast
