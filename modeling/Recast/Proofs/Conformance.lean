import Recast.Proofs.DataValues
import Recast.Proofs.Interning
import Recast.Proofs.Rebinding
import Recast.Proofs.RuntimeShape
import Recast.Proofs.Typing

/-! # Values of a type

A value conforms to a type if it is null, or of the kind that the type holds, and all
that can be read off it conforms to the type it is read as: the items of a list, the
fields of a record, and what a lambda answers, whose body is typed over the parameters
in force where it is applied.

- `Registry.Vetted` — a well-typed expression whose parts are what its types say, where
  the constructors of the nodes do not check it.
- `Registry.Conforms` — the values of a type.
- `Registry.Conforms.assign` — a value of a type is a value of all types that it is
  assignable to.
- `Registry.castValue_conforms`, `isInstance_conforms` — converted values, and values
  that pass a type test.
-/

namespace Recast

/-! ## §1  What the constructors leave open -/

namespace MethodSig

/-- What the lambda after the sequence answers. -/
def answer? (d : MethodSig) : Option Ty :=
  match d.params with
  | [_, .func [.param 0] t] | [_, .expression (.func [.param 0] t)] => some t
  | _ => none

/-- The names under which evaluation makes something of a sequence. -/
def sequenceNames : List String :=
  ["Any", "All", "Count", "Where", "Select", "First", "FirstOrDefault", "Contains", "OrderBy",
    "OrderByDescending", "Sum", "Max", "Min", "Take", "Skip"]

/-- The operator of that name takes a sequence of the first type argument, and ends with what it
says it returns. -/
def sequenceHonest (d : MethodSig) : Bool :=
  (match d.params with
    | .seq _ (.param 0) :: rest =>
      rest.isEmpty || d.answer?.isSome || ["Contains", "Take", "Skip"].contains d.name
    | _ => false) &&
  match d.name, d.ret with
  | "Any", t | "All", t | "Contains", t => t == .boolean
  | "Count", t | "Sum", t => t == .int32
  | "Where", .seq _ t | "OrderBy", .seq _ t | "OrderByDescending", .seq _ t | "Take", .seq _ t
  | "Skip", .seq _ t => t == .param 0
  | "Select", .seq _ t => d.answer? == some t
  | "First", t | "FirstOrDefault", t => t == .param 0
  | "Max", t | "Min", t => d.answer? == some t
  | _, _ => false

/-- The method of that name of a text, or of any value, returns what it says. -/
def valueHonest (d : MethodSig) : Bool :=
  match d.name with
  | "StartsWith" | "EndsWith" | "Contains" | "Equals" => d.ret == .boolean
  | "ToUpper" | "ToLower" | "Trim" | "ToString" => d.ret == .string
  | _ => true

/-- The types of the method are those of what evaluation makes of it.  It makes nothing of methods
of other names, or that are declared elsewhere. -/
def honest (d : MethodSig) : Bool :=
  if d.declaring == "Enumerable" || d.declaring == "Queryable" then
    !sequenceNames.contains d.name || d.sequenceHonest
  else if d.declaring == "String" || d.declaring == "Object" then d.valueHonest
  else true

end MethodSig

theorem Catalogue.standard_honest : ∀ d ∈ Catalogue.standard, d.honest = true := by decide

namespace Registry

variable (r : Registry)

/-- Nothing that is built is redefined, and only records are bases. -/
structure Nominal : Prop where
  fresh : ∀ t : Ty, t.shape?.isSome = true → r.isRedefined t = false
  bases : ∀ s b, r.base? s = some b → r.isRecord b = true

/-- Values of the type have fields. -/
def HasFields (t : Ty) : Prop :=
  r.isRecord t = true ∨ r.isAnonymous t = true ∨ ∃ k v, t = .keyValue k v

/-- The conversion widens, or the value that it ends with is of the type by the way it is computed:
it does not keep values of one type as values of a narrower one. -/
def ConvertsSafely (s t : Ty) : Prop :=
  r.isAssignable s t = true ∨ r.stripNullable s = r.stripNullable t ∨
    r.isNumberLike (r.stripNullable t) = true ∨
      r.isDate (r.stripNullable s) = true ∧ r.isDate (r.stripNullable t) = true

/-- What the constructor of the node takes on trust. -/
def NodeSafe : Expr → Prop
  | .unary op e t => op = .convert ∨ op = .convertChecked → r.ConvertsSafely e.ty t
  | .binary op left _ (some c) t =>
    op = .coalesce → ∀ ps body ty, c.lambdaParts? = some (ps, body, ty) →
      (∀ p ∈ ps.head?, r.Fits (r.stripNullable left.ty) p.ty) ∧ r.Fits body.ty t
  | .call _ m _ => r.closeMethod? m.definition m.typeArgs = some m ∧ m.definition.honest = true
  | .new t inits =>
    r.HasFields t ∧ ∀ i ∈ inits, ∀ base m, r.Derives t base → r.member? base i.1 = some m →
      r.Fits i.2.ty m.ty
  | .invoke f args _ => ∀ ps ret, r.signature? f.ty = some (ps, ret) →
      List.Forall₂ (fun arg t => r.Fits arg.ty t) args ps
  | _ => True

/-- The expression is well typed, also in what the constructors take on trust, and each parameter
has one type wherever it is named. -/
structure Vetted (Γ : Nat → Option Ty) (e : Expr) : Prop where
  typed : r.WellTyped e
  safe : ∀ n ∈ e.nodes, r.NodeSafe n
  params : ∀ p ∈ e.parameters, Γ p.id = some p.ty

/-! ## §2  Conforming values -/

/-- The value is null or of the type, with all that can be read off it.  `Γ` gives the types of the
parameters that may be in force where a lambda is applied. -/
inductive Conforms (Γ : Nat → Option Ty) : Value → Ty → Prop
  | null {t} : Conforms Γ .null t
  | nullable {v t u} (ht : r.underlying? t = some u) (hv : Conforms Γ v u) : Conforms Γ v t
  | object {v s} (hfresh : r.isRedefined .object = false) (hv : Conforms Γ v s) :
      Conforms Γ v .object
  | literal {v l} (hfresh : r.isRedefined (.literal l) = false) (hv : l.admits v = true) :
      Conforms Γ v (.literal l)
  | variant {name t variants} (ht : r.variants? t = some variants) (hname : name ∈ variants) :
      Conforms Γ (.enum name) t
  /-- A field is read through the type of the record and through all that it derives from. -/
  | record {own fields t} (hown : r.HasFields own) (hderives : r.Derives own t)
      (hfields : ∀ base name v m, r.Derives own base → (name, v) ∈ fields →
        r.member? base name = some m → Conforms Γ v m.ty) : Conforms Γ (.record own fields) t
  | list {items t e} (ht : r.element? t = some e) (hitems : ∀ v ∈ items, Conforms Γ v e) :
      Conforms Γ (.list items) t
  | lambda {e ps body ty ret t} (hparts : e.lambdaParts? = some (ps, body, ty))
      (hsig : r.signature? t = some (ps.map (·.ty), ret)) (hret : r.Fits body.ty ret)
      (he : r.Vetted Γ e) (hconstants : ∀ v s, .const v s ∈ e.nodes → Conforms Γ v s) :
      Conforms Γ (.lambda e) t

/-- The expression is vetted, and its constants are values of their types. -/
structure Admissible (Γ : Nat → Option Ty) (e : Expr) : Prop extends r.Vetted Γ e where
  constants : ∀ v s, .const v s ∈ e.nodes → r.Conforms Γ v s

variable {r} {Γ : Nat → Option Ty}

theorem Admissible.mono {e e' : Expr} (h : r.Admissible Γ e) (hnodes : e'.nodes ⊆ e.nodes) :
    r.Admissible Γ e' where
  typed n hn := h.typed n (hnodes hn)
  safe n hn := h.safe n (hnodes hn)
  params p hp := h.params p (Expr.parameters_subset_of_nodes hnodes hp)
  constants v s hs := h.constants v s (hnodes hs)

theorem Admissible.child {e c : Expr} (h : r.Admissible Γ e) (hc : c ∈ e.children) :
    r.Admissible Γ c :=
  h.mono (Expr.nodes_subset_of_child hc)

theorem Admissible.node {e : Expr} (h : r.Admissible Γ e) : r.NodeTyped e ∧ r.NodeSafe e :=
  ⟨h.typed.node, h.safe e e.mem_nodes_self⟩

/-! ### Values by the kind of the type -/

section Inversion

variable {v : Value} {s t u : Ty}

theorem Nominal.isRecord_eq_false (hr : r.Nominal) (ht : t.shape?.isSome = true) :
    r.isRecord t = false := by
  apply isRecord_of_constructed (hr.fresh t ht)
  · rintro id rfl
    cases ht
  · rintro g args rfl
    cases ht

/-- A type that records derive from is a record, or it is their own. -/
theorem Nominal.derives_cases {own : Ty} (hr : r.Nominal) (h : r.Derives own t) :
    own = t ∨ r.isRecord t = true := by
  cases h with
  | refl => exact .inl rfl
  | tail _ hbase => exact .inr (hr.bases _ _ hbase)

/-- A value with fields is no value of a type that is built otherwise. -/
theorem Nominal.not_derives {own : Ty} (hr : r.Nominal) (ht : t.shape?.isSome = true)
    (hanonymous : ∀ ms, t ≠ .anonymous ms) (hpair : ∀ k v, t ≠ .keyValue k v)
    (hown : r.HasFields own) : ¬ r.Derives own t := by
  intro h
  rcases hr.derives_cases h with rfl | hrecord
  · rcases hown with hrecord | hrow | ⟨k, v, rfl⟩
    · rw [hr.isRecord_eq_false ht] at hrecord
      cases hrecord
    · obtain ⟨ms, hms⟩ := isAnonymous_kind.mp hrow
      exact hanonymous ms (kind?_eq_built.mp hms).1
    · exact hpair k v rfl
  · rw [hr.isRecord_eq_false ht] at hrecord
    cases hrecord

theorem Conforms.of_underlying (hr : r.Nominal) (h : r.Conforms Γ v t)
    (ht : r.underlying? t = some u) : r.Conforms Γ v u := by
  obtain ⟨rfl, -⟩ := underlying?_eq_some ht
  cases h with
  | null => exact .null
  | nullable ht' hv => exact Option.some.inj (ht'.symm.trans ht) ▸ hv
  | variant ht' => simp [variants?, declaration?] at ht'
  | record hown hderives => exact absurd hderives (hr.not_derives rfl (by simp) (by simp) hown)
  | list ht' => simp [element?] at ht'
  | lambda _ hsig => simp [signature?] at hsig

/-- A value is of a type exactly if it is null or of the type beneath `Nullable<>`. -/
theorem conforms_stripNullable (hr : r.Nominal) :
    r.Conforms Γ v (r.stripNullable t) ↔ r.Conforms Γ v t := by
  unfold stripNullable
  cases ht : r.underlying? t with
  | none => rfl
  | some u => exact ⟨.nullable ht, fun h => h.of_underlying hr ht⟩

/-- The values of a literal type are those that it admits. -/
theorem conforms_literal_iff (hr : r.Nominal) {l : Literal} :
    r.Conforms Γ v (.literal l) ↔ v = .null ∨ l.admits v = true := by
  constructor
  · intro h
    cases h with
    | null => exact .inl rfl
    | nullable ht => simp [underlying?] at ht
    | literal _ hv => exact .inr hv
    | variant ht => simp [variants?, declaration?] at ht
    | record hown hderives => exact absurd hderives (hr.not_derives rfl (by simp) (by simp) hown)
    | list ht => simp [element?] at ht
    | lambda _ hsig => simp [signature?] at hsig
  · rintro (rfl | hv)
    · exact .null
    · exact .literal (hr.fresh _ rfl) hv

theorem conforms_of_literal? (hr : r.Nominal) {l : Literal} : ∀ {t : Ty}, r.literal? t = some l →
    (r.Conforms Γ v t ↔ v = .null ∨ l.admits v = true)
  | .literal l', h => by
      obtain ⟨-, rfl⟩ : r.isRedefined (.literal l') = false ∧ l' = l := by simpa [literal?] using h
      exact conforms_literal_iff hr
  | .nullable u, h => by
      have hfresh : r.isRedefined (.nullable u) = false := hr.fresh _ rfl
      have hu : r.literal? u = some l := by simpa [literal?, hfresh] using h
      rw [← conforms_of_literal? hr hu, ← conforms_stripNullable hr (t := .nullable u),
        stripNullable, underlying?_nullable hfresh, Option.getD_some]
  | .object, h | .void, h | .param _, h | .declared _, h | .inst _ _, h | .anonymous _, h
  | .array _, h | .seq _ _, h | .dictionary _ _, h | .keyValue _ _, h | .func _ _, h
  | .expression _, h => by cases h

/-- Whatever type a record is seen as, it is of all types that its own type derives from. -/
theorem Conforms.derived {own : Ty} {fields : List (String × Value)}
    (h : r.Conforms Γ (.record own fields) s) (ht : r.Derives own t) :
    r.Conforms Γ (.record own fields) t := by
  generalize hv : Value.record own fields = v at h
  induction h with
  | record hown _ hfields =>
      cases hv
      exact .record hown ht hfields
  | nullable _ _ ih | object _ _ ih => exact ih hv
  | literal _ hadmits =>
      subst hv
      simp [Literal.admits] at hadmits
  | _ => cases hv

/-- What can be read off a record seen as a record type it is of. -/
theorem Conforms.field {own : Ty} {fields : List (String × Value)} {name : String} {w : Value}
    {m : Member} (h : r.Conforms Γ (.record own fields) t) (ht : r.underlying? t = none)
    (hm : r.member? t name = some m) (hw : (name, w) ∈ fields) : r.Conforms Γ w m.ty := by
  cases h with
  | nullable ht' =>
      rw [ht] at ht'
      cases ht'
  | object hfresh =>
      rw [member?_builtin hfresh (by simp) (by simp) (by simp)] at hm
      cases hm
  | literal _ hv => simp [Literal.admits] at hv
  | record _ hderives hfields => exact hfields t name w m hderives hw hm

theorem Conforms.item {items : List Value} {w : Value} {e : Ty}
    (h : r.Conforms Γ (.list items) t) (ht : r.element? t = some e) (hw : w ∈ items) :
    r.Conforms Γ w e := by
  cases h with
  | nullable ht' =>
      obtain ⟨rfl, -⟩ := underlying?_eq_some ht'
      simp [element?] at ht
  | object => simp [element?] at ht
  | literal _ hv => simp [Literal.admits] at hv
  | list ht' hitems => exact Option.some.inj (ht'.symm.trans ht) ▸ hitems w hw

theorem signature?_of_record (ht : r.isRecord t = true) : r.signature? t = none := by
  rcases record_isRedefined_or ht with hred | ⟨id, rfl⟩ | ⟨g, args, rfl⟩
  · cases t <;> simp [signature?, hred]
  · rfl
  · rfl

/-- The values of a record type are null and records that derive from it. -/
theorem Conforms.of_isRecord (hr : r.Nominal) (h : r.Conforms Γ v t) (ht : r.isRecord t = true) :
    v = .null ∨ ∃ own fields, v = .record own fields ∧ r.Derives own t := by
  cases h with
  | null => exact .inl rfl
  | nullable ht' =>
      rw [underlying?_of_record ht] at ht'
      cases ht'
  | object | literal =>
      rw [hr.isRecord_eq_false rfl] at ht
      cases ht
  | variant ht' =>
      have hscalar := isScalar_of_record ht
      simp [isScalar, isEnum, stripNullable, underlying?_of_record ht, ht'] at hscalar
  | record _ hderives => exact .inr ⟨_, _, rfl, hderives⟩
  | list ht' =>
      rw [element?_of_record ht] at ht'
      cases ht'
  | lambda _ hsig =>
      rw [signature?_of_record ht] at hsig
      cases hsig

theorem Conforms.extend (hr : r.Nominal) (h : r.Conforms Γ v s) (hs : r.extends? s t = true) :
    r.Conforms Γ v t := by
  obtain ⟨hrecord, hdescends⟩ := Bool.and_eq_true _ _ |>.mp hs
  rcases h.of_isRecord hr hrecord with rfl | ⟨own, fields, rfl, hderives⟩
  · exact .null
  · exact h.derived (hderives.trans (derives_of_descendsWithin hdescends))

/-- The values of a sequence type other than null are lists. -/
theorem Conforms.of_isSequence (hr : r.Nominal) {e : Ty} (h : r.Conforms Γ v t)
    (ht : r.element? t = some e) :
    v = .null ∨ ∃ items, v = .list items ∧ ∀ w ∈ items, r.Conforms Γ w e := by
  have hbuilt : t.shape?.isSome = true ∧ (∀ ms, t ≠ .anonymous ms) ∧ ∀ k v, t ≠ .keyValue k v := by
    rcases element?_kind.mp ht with hk | ⟨kind, hk⟩ | ⟨k, v, hk, -⟩ <;>
    · obtain ⟨rfl, -⟩ := kind?_eq_built.mp hk
      exact ⟨rfl, by simp [Shape.ty], by simp [Shape.ty]⟩
  cases h with
  | null => exact .inl rfl
  | nullable ht' =>
      obtain ⟨rfl, -⟩ := underlying?_eq_some ht'
      simp [element?] at ht
  | object | literal => simp [element?] at ht
  | variant ht' => cases t <;> simp_all [variants?, declaration?, element?]
  | record hown hderives =>
      exact absurd hderives (hr.not_derives hbuilt.1 hbuilt.2.1 hbuilt.2.2 hown)
  | list ht' hitems => exact .inr ⟨_, rfl, Option.some.inj (ht'.symm.trans ht) ▸ hitems⟩
  | lambda _ hsig => cases t <;> simp_all [signature?, element?]

/-- The values of a delegate type other than null are lambdas that answer what it returns. -/
theorem Conforms.of_isDelegate (hr : r.Nominal) {params : List Ty} {ret : Ty} (h : r.Conforms Γ v t)
    (ht : r.signature? t = some (params, ret)) :
    v = .null ∨ ∃ e ps body ty, v = .lambda e ∧ e.lambdaParts? = some (ps, body, ty) ∧
      params = ps.map (·.ty) ∧ r.Fits body.ty ret ∧ r.Admissible Γ e := by
  have hbuilt : t.shape?.isSome = true ∧ (∀ ms, t ≠ .anonymous ms) ∧ ∀ k v, t ≠ .keyValue k v := by
    rcases signature?_kind.mp ht with hk | ⟨d, hk, -⟩ <;>
    · obtain ⟨rfl, -⟩ := kind?_eq_built.mp hk
      exact ⟨rfl, by simp [Shape.ty], by simp [Shape.ty]⟩
  cases h with
  | null => exact .inl rfl
  | nullable ht' =>
      obtain ⟨rfl, -⟩ := underlying?_eq_some ht'
      simp [signature?] at ht
  | object | literal => simp [signature?] at ht
  | variant ht' => cases t <;> simp_all [variants?, declaration?, signature?]
  | record hown hderives =>
      exact absurd hderives (hr.not_derives hbuilt.1 hbuilt.2.1 hbuilt.2.2 hown)
  | list ht' => cases t <;> simp_all [signature?, element?]
  | lambda hparts hsig hret he hconstants =>
      obtain ⟨rfl, rfl⟩ := Prod.mk.inj (Option.some.inj (ht.symm.trans hsig))
      exact .inr ⟨_, _, _, _, rfl, hparts, rfl, hret, ⟨he, hconstants⟩⟩

/-! ### Assignable types -/

theorem Conforms.same_or_extend (hr : r.Nominal) (h : r.Conforms Γ v s)
    (hst : (s == t || r.extends? s t) = true) : r.Conforms Γ v t := by
  rcases Bool.or_eq_true _ _ |>.mp hst with hsame | hextends
  · exact beq_iff_eq.mp hsame ▸ h
  · exact h.extend hr hextends

/-- A value of a type is a value of the types that it is assignable to. -/
theorem Conforms.assign (hr : r.Nominal) : ∀ {t s : Ty} {v : Value}, r.Conforms Γ v s →
    r.isAssignable s t = true → r.Conforms Γ v t
  | .object, _, _, h, _ => .object (hr.fresh _ rfl) h
  | .nullable u, s, v, h, hst => by
      simp only [isAssignable, Bool.or_eq_true, Bool.and_eq_true, beq_iff_eq] at hst
      rcases hst with (rfl | ⟨-, rfl⟩) | hextends
      · exact h
      · exact .nullable (underlying?_nullable (hr.fresh _ rfl)) h
      · exact h.extend hr hextends
  | .seq .enumerable e, s, v, h, hst => by
      have hfresh : r.isRedefined (.seq .enumerable e) = false := hr.fresh _ rfl
      have ht : r.element? (.seq .enumerable e) = some e := by simp [element?, hfresh]
      simp only [isAssignable, hfresh, Bool.or_eq_true, beq_iff_eq] at hst
      rcases hst with rfl | hst
      · exact h
      · split at hst
        · rename_i e' he'
          rcases h.of_isSequence hr he' with rfl | ⟨items, rfl, hitems⟩
          · exact .null
          · refine .list ht fun w hw => ?_
            simp only [Bool.or_eq_true, Bool.and_eq_true, beq_iff_eq] at hst
            rcases hst with rfl | ⟨-, hst⟩
            · exact hitems w hw
            · exact Conforms.assign hr (hitems w hw) hst
        · exact h.extend hr hst
  | .func ps ret, s, v, h, hst => by
      have hfresh : r.isRedefined (.func ps ret) = false := hr.fresh _ rfl
      simp only [isAssignable, Bool.or_eq_true, beq_iff_eq] at hst
      rcases hst with rfl | hst
      · exact h
      · split at hst
        · rename_i sps sret hs
          split at hs
          · cases hs
          · subst hs
            simp only [Bool.and_eq_true, beq_iff_eq] at hst
            obtain ⟨rfl, hret⟩ := hst
            have hsig : r.signature? (.func sps sret) = some (sps, sret) := by
              simp [signature?, hr.fresh (.func sps sret) rfl]
            rcases h.of_isDelegate hr hsig with rfl | ⟨e, qs, body, ty, rfl, hparts, rfl, hbody, he⟩
            · exact .null
            · refine .lambda hparts ?_ (hbody.tail hret) he.toVetted he.constants
              simp [signature?, hfresh]
        · exact h.extend hr hst
  | .void, s, _, h, hst | .literal _, s, _, h, hst | .param _, s, _, h, hst
  | .declared _, s, _, h, hst | .inst _ _, s, _, h, hst | .anonymous _, s, _, h, hst
  | .array _, s, _, h, hst | .seq .list _, s, _, h, hst | .seq .queryable _, s, _, h, hst
  | .dictionary _ _, s, _, h, hst | .keyValue _ _, s, _, h, hst | .expression _, s, _, h, hst => by
      rw [isAssignable] at hst
      · exact h.same_or_extend hr hst
      all_goals simp

theorem Conforms.fit (hr : r.Nominal) (h : r.Conforms Γ v s) (hst : r.Fits s t) :
    r.Conforms Γ v t := by
  induction hst with
  | refl => exact h
  | tail _ hstep ih => exact ih.assign hr hstep

end Inversion

/-! ## §3  Conversions -/

section Conversions

variable {v w : Value} {s t : Ty}

/-- A value of the literal type converted to that type is one still. -/
theorem toLiteral?_of_admits {l : Literal} (hv : l.admits v = true)
    (h : r.toLiteral? s l v = some w) : l.admits w = true := by
  by_cases hnumber : l = .char ∨ l.isNumeric = true
  · exact toLiteral?_admits hnumber h
  · by_cases hdate : l = .dateTime ∨ l = .dateTimeOffset
    · exact toLiteral?_date hdate hdate hv h
    · -- what is left keeps the value
      have hsame : r.toLiteral? s l v = some v := by
        cases l with
        | boolean | string | guid | timeSpan => rfl
        | dateTime => exact absurd (.inl rfl) hdate
        | dateTimeOffset => exact absurd (.inr rfl) hdate
        | char => exact absurd (.inl rfl) hnumber
        | _ => exact absurd (.inr rfl) hnumber
      rw [hsame] at h
      exact Option.some.inj h ▸ hv

/-- A number, a character or a variant is what every conversion to such a type ends with. -/
theorem isNumberLike_cases (h : r.isNumberLike t = true) :
    (r.variants? t).isSome = true ∨
      ∃ l, r.literal? t = some l ∧ (l = .char ∨ l.isNumeric = true) := by
  unfold isNumberLike at h
  rcases Bool.or_eq_true _ _ |>.mp h with henum | hliteral
  · exact .inl henum
  · cases hl : r.literal? t with
    | none => simp [hl] at hliteral
    | some l => exact .inr ⟨l, rfl, by simpa [hl, or_comm] using hliteral⟩

theorem castValue_conforms (hr : r.Nominal) (hv : r.Conforms Γ v s) (hsafe : r.ConvertsSafely s t)
    (h : r.castValue v s t = .ok w) : r.Conforms Γ w t := by
  cases hnull : v.isNull with
  | true =>
      obtain rfl := Value.eq_null hnull
      have hw : w = .null := by
        simp only [castValue, hnull, if_true] at h
        split at h <;> cases h
        rfl
      exact hw ▸ .null
  | false =>
      have hne : v ≠ .null := by
        rintro rfl
        cases hnull
      have hkept : r.isAssignable s t = true ∨ r.stripNullable s = r.stripNullable t →
          r.Conforms Γ v (r.stripNullable t) := by
        rintro (hassign | hsame)
        · exact (conforms_stripNullable hr).mpr (hv.assign hr hassign)
        · exact hsame ▸ (conforms_stripNullable hr).mpr hv
      rw [← conforms_stripNullable hr]
      rcases castValue_eq_ok hnull h with ⟨variants, hvariants, hw⟩ | ⟨hvariants, hcases⟩
      · obtain ⟨name, hname, rfl⟩ := toVariant?_mem hw
        exact .variant hvariants hname
      · rcases hcases with ⟨l, hl, hw⟩ | ⟨hl, rfl⟩
        · refine (conforms_of_literal? hr hl).mpr (.inr ?_)
          rcases or_assoc.mpr hsafe with hwider | hnumber | ⟨hdate, hdate'⟩
          · have hadmits := ((conforms_of_literal? hr hl).mp (hkept hwider)).resolve_left hne
            exact toLiteral?_of_admits hadmits hw
          · rcases isNumberLike_cases hnumber with henum | ⟨l', hl', hcases⟩
            · simp [hvariants] at henum
            · obtain rfl := Option.some.inj (hl.symm.trans hl')
              exact toLiteral?_admits hcases hw
          · obtain ⟨l₁, hl₁, hcases⟩ := isDate_cases hdate
            obtain ⟨l₂, hl₂, hcases'⟩ := isDate_cases hdate'
            obtain rfl := Option.some.inj (hl.symm.trans hl₂)
            have hplain := (conforms_stripNullable (Γ := Γ) hr).mpr hv
            have hadmits := ((conforms_of_literal? hr hl₁).mp hplain).resolve_left hne
            exact toLiteral?_date hcases' hcases hadmits hw
        · rcases or_assoc.mpr hsafe with hwider | hnumber | ⟨-, hdate⟩
          · exact hkept hwider
          · simp [isNumberLike, isEnum, hvariants, hl] at hnumber
          · simp [isDate, hl] at hdate

/-- A value that is an instance of the tested type is of that type. -/
theorem isInstance_conforms (hr : r.Nominal) (hv : r.Conforms Γ v s)
    (h : r.isInstance v s t = true) : r.Conforms Γ v t := by
  rw [← conforms_stripNullable hr]
  unfold isInstance at h
  split at h
  · exact .null
  · rename_i own fields
    rcases Bool.or_eq_true _ _ |>.mp h with hdescends | hassign
    · exact hv.derived (derives_of_descendsWithin hdescends)
    · exact (conforms_stripNullable hr).mpr ((hv.derived .refl).assign hr hassign)
  · exact ((conforms_stripNullable hr).mpr hv).assign hr h

theorem float_admits {l : Literal} (hl : l.isNumeric = true) (f : Float) :
    Value.float f = .null ∨ l.admits (Value.float f) = true := by
  unfold Value.float
  split
  · exact .inr (Literal.admits_num hl _)
  · exact .inl rfl

theorem defaultLiteral_admits (l : Literal) :
    defaultLiteral l = .null ∨ l.admits (defaultLiteral l) = true := by
  cases l with
  | single | double | decimal => exact float_admits rfl 0
  | string => exact .inl rfl
  | _ => exact .inr rfl

theorem defaultOf_conforms (hr : r.Nominal) (t : Ty) : r.Conforms Γ (r.defaultOf t) t := by
  unfold defaultOf
  split
  · rename_i variant rest hvariants
    exact .variant hvariants List.mem_cons_self
  · exact .null
  · cases t with
    | literal l =>
        have hfresh : r.isRedefined (.literal l) = false := hr.fresh _ rfl
        simp only [hfresh]
        exact (conforms_literal_iff hr).mpr (defaultLiteral_admits l)
    | _ => exact .null

end Conversions

end Registry

end Recast
