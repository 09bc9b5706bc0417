import Mathlib.Data.List.Forall2
import Mathlib.Tactic.SplitIfs
import Recast.Proofs.Coherence
import Recast.Proofs.Run
import Recast.Value.Mapped

/-! # Mapped values

What a value is mapped to does not depend on the `Nullable<>` around its type or
around the target, nor on how much deeper than necessary the mapping may go.
Between records a field is what the rule of its name gives; between containers a
list stays a list of the same length.
-/

namespace Recast

/-! ## §1  Types without nullable layers -/

namespace Registry

variable (r : Registry)

/-- The type under all of its nullable layers. -/
def core : Ty → Ty
  | .nullable t => if r.isRedefined (.nullable t) then .nullable t else core t
  | t => t

variable {r}

theorem underlying?_eq_some {t u : Ty} (h : r.underlying? t = some u) :
    t = .nullable u ∧ r.isRedefined t = false := by
  unfold underlying? at h
  split at h
  · split at h
    · cases h
    · rename_i hfresh
      cases h
      exact ⟨rfl, by simpa using hfresh⟩
  · cases h

theorem underlying?_nullable {t : Ty} (h : r.isRedefined (.nullable t) = false) :
    r.underlying? (.nullable t) = some t := by
  simp [underlying?, h]

theorem core_of_underlying? {t u : Ty} (h : r.underlying? t = some u) : r.core t = r.core u := by
  obtain ⟨rfl, hfresh⟩ := underlying?_eq_some h
  simp [core, hfresh]

theorem core_of_not_nullable {t : Ty} (h : r.underlying? t = none) : r.core t = t := by
  cases t with
  | nullable u =>
      cases hred : r.isRedefined (.nullable u) with
      | true => simp [core, hred]
      | false => simp [underlying?, hred] at h
  | _ => rfl

theorem underlying?_core : ∀ t, r.underlying? (r.core t) = none
  | .nullable t => by
      rw [core]
      split
      · rename_i hred
        simp [underlying?, hred]
      · exact underlying?_core t
  | .object | .void | .literal _ | .param _ | .declared _ | .inst _ _ | .anonymous _ | .array _
  | .seq _ _ | .dictionary _ _ | .keyValue _ _ | .func _ _ | .expression _ => rfl

theorem core_core (t : Ty) : r.core (r.core t) = r.core t :=
  core_of_not_nullable (underlying?_core t)

theorem core_stripNullable {t : Ty} : r.core (r.stripNullable t) = r.core t := by
  unfold stripNullable
  cases h : r.underlying? t with
  | none => rfl
  | some u => exact (core_of_underlying? h).symm

theorem literal?_core : ∀ t, r.literal? (r.core t) = r.literal? t
  | .nullable t => by
      rw [core]
      split
      · rfl
      · rename_i hred
        rw [literal?_core t, literal?, if_neg hred]
  | .object | .void | .literal _ | .param _ | .declared _ | .inst _ _ | .anonymous _ | .array _
  | .seq _ _ | .dictionary _ _ | .keyValue _ _ | .func _ _ | .expression _ => rfl

theorem literal?_stripNullable {t : Ty} : r.literal? (r.stripNullable t) = r.literal? t := by
  rw [← literal?_core, core_stripNullable, literal?_core]

theorem nullable_ne_self (t : Ty) : Ty.nullable t ≠ t := by
  intro h
  have := congrArg Ty.size h
  simp [Ty.size] at this

/-- A record is none of the types that are taken apart. -/
theorem record_isRedefined_or {t : Ty} (h : r.isRecord t = true) :
    r.isRedefined t = true ∨ (∃ id, t = .declared id) ∨ ∃ g args, t = .inst g args := by
  cases hred : r.isRedefined t with
  | true => exact .inl rfl
  | false =>
      have hnone : r.redefinition? t = none := by
        simpa [redefinition?, isRedefined] using hred
      cases t with
      | declared id => exact .inr (.inl ⟨id, rfl⟩)
      | inst g args => exact .inr (.inr ⟨g, args, rfl⟩)
      | _ => simp [isRecord, record?, hnone] at h

theorem underlying?_of_record {t : Ty} (h : r.isRecord t = true) : r.underlying? t = none := by
  rcases record_isRedefined_or h with hred | ⟨id, rfl⟩ | ⟨g, args, rfl⟩
  · cases t <;> simp [underlying?, hred]
  · rfl
  · rfl

theorem element?_of_record {t : Ty} (h : r.isRecord t = true) : r.element? t = none := by
  rcases record_isRedefined_or h with hred | ⟨id, rfl⟩ | ⟨g, args, rfl⟩
  · simp [element?, hred]
  · simp [element?]
  · simp [element?]

theorem isScalar_of_record {t : Ty} (h : r.isRecord t = true) : r.isScalar t = false := by
  have hplain : r.stripNullable t = t := by simp [stripNullable, underlying?_of_record h]
  have henum : r.isEnum t = false := by
    unfold isRecord record? at h
    unfold isEnum variants? declaration?
    cases t with
    | declared id =>
        cases hred : r.redefinition? (.declared id) with
        | some d =>
            have : r.isRedefined (.declared id) = true := by
              simp only [redefinition?, Option.map_eq_some_iff] at hred
              obtain ⟨x, hx, -⟩ := hred
              exact List.any_eq_true.mpr ⟨x, List.mem_of_find?_eq_some hx, by simpa using List.find?_some hx⟩
            simp [this]
        | none =>
            simp only [hred] at h
            split at h
            · rename_i hdecl
              simp [hdecl]
            · simp at h
    | _ => rfl
  have hliteral : r.literal? t = none := by
    rcases record_isRedefined_or h with hred | ⟨id, rfl⟩ | ⟨g, args, rfl⟩
    · cases t <;> simp [literal?, hred]
    · rfl
    · rfl
  simp [isScalar, isLiteral, hliteral, hplain, henum]

/-! ### Generic definitions -/

/-- The type closes the generic definition. -/
inductive FormedBy (r : Registry) : TyFormer → Ty → Prop
  | record {g args} : FormedBy r (.record g) (.inst g args)
  | seq {kind e} (h : r.isRedefined (.seq kind e) = false) : FormedBy r (.seq kind) (.seq kind e)
  | dictionary {k v} (h : r.isRedefined (.dictionary k v) = false) :
      FormedBy r .dictionary (.dictionary k v)
  | keyValue {k v} (h : r.isRedefined (.keyValue k v) = false) :
      FormedBy r .keyValue (.keyValue k v)
  | nullable {t} (h : r.isRedefined (.nullable t) = false) : FormedBy r .nullable (.nullable t)
  | array {t} (h : r.isRedefined (.array t) = false) : FormedBy r .array (.array t)

theorem formedBy_of_former? {t : Ty} {F : TyFormer} (h : r.former? t = some F) :
    r.FormedBy F t := by
  unfold former? at h
  split at h
  · cases h
    exact .record
  · split at h
    · cases h
    · rename_i hfresh
      rw [Bool.not_eq_true] at hfresh
      split at h <;> cases h
      · exact .seq hfresh
      · exact .dictionary hfresh
      · exact .keyValue hfresh
      · exact .nullable hfresh
      · exact .array hfresh

theorem isRecord_of_constructed {t : Ty} (hfresh : r.isRedefined t = false)
    (hdeclared : ∀ id, t ≠ .declared id) (hinst : ∀ g args, t ≠ .inst g args) :
    r.isRecord t = false := by
  cases hrecord : r.isRecord t with
  | false => rfl
  | true =>
      rcases record_isRedefined_or hrecord with hred | ⟨id, rfl⟩ | ⟨g, args, rfl⟩
      · simp [hfresh] at hred
      · exact absurd rfl (hdeclared id)
      · exact absurd rfl (hinst g args)

theorem member?_builtin {t : Ty} (hfresh : r.isRedefined t = false)
    (hdeclared : ∀ id, t ≠ .declared id) (hinst : ∀ g args, t ≠ .inst g args)
    (hanonymous : ∀ ms, t ≠ .anonymous ms) (name : String) :
    r.member? t name = (builtinMember? t name).map (⟨name, ·⟩) := by
  have hnone : r.isAnonymous t = false := by
    cases t with
    | anonymous ms => exact absurd rfl (hanonymous ms)
    | _ => rfl
  simp [member?, isRecord_of_constructed hfresh hdeclared hinst, hnone]

theorem builtinMember?_literal {l : Literal} {name : String} {t : Ty}
    (h : builtinMember? (.literal l) name = some t) :
    (l = .string ∧ name = "Length" ∧ t = .int32) ∨
      ((l = .dateTime ∨ l = .dateTimeOffset) ∧
        ((name = "Year" ∨ name = "Month" ∨ name = "Day") ∧ t = .int32 ∨
          name = "Date" ∧ t = .dateTime)) := by
  have hdates : (if l = .dateTime ∨ l = .dateTimeOffset then
      if name = "Year" ∨ name = "Month" ∨ name = "Day" then some Ty.int32
      else if name = "Date" then some .dateTime else none
    else none) = some t → (l = .dateTime ∨ l = .dateTimeOffset) ∧
      ((name = "Year" ∨ name = "Month" ∨ name = "Day") ∧ t = .int32 ∨
        name = "Date" ∧ t = .dateTime) := by
    intro h
    split_ifs at h with hdate hname hname
    · cases h
      exact ⟨hdate, .inl ⟨hname, rfl⟩⟩
    · cases h
      exact ⟨hdate, .inr ⟨hname, rfl⟩⟩
  cases l with
  | string =>
      by_cases hname : name = "Length"
      · subst hname
        cases h
        exact .inl ⟨rfl, rfl, rfl⟩
      · simp [builtinMember?, hname] at h
  | _ => exact .inr (hdates h)

theorem builtinMember?_nullable {u t : Ty} {name : String}
    (h : builtinMember? (.nullable u) name = some t) : name = "HasValue" ∨ name = "Value" := by
  by_cases hhas : name = "HasValue"
  · exact .inl hhas
  · by_cases hvalue : name = "Value"
    · exact .inr hvalue
    · simp [builtinMember?, hhas, hvalue] at h

theorem isLiteral_cases {r : Registry} {t : Ty} (h : r.isLiteral t = true) :
    r.isRedefined t = false ∧ ((∃ l, t = .literal l ∧ r.literal? (.literal l) = some l) ∨ ∃ u, t = .nullable u) := by
  unfold isLiteral at h
  cases t with
  | literal l =>
      cases hred : r.isRedefined (.literal l) with
      | true => simp [literal?, hred] at h
      | false => exact ⟨rfl, .inl ⟨l, rfl, by simp [literal?, hred]⟩⟩
  | nullable u =>
      cases hred : r.isRedefined (.nullable u) with
      | true => simp [literal?, hred] at h
      | false => exact ⟨rfl, .inr ⟨u, rfl⟩⟩
  | _ => simp [literal?] at h
/-- The only members of containers are counts. -/
theorem ty_of_container_member {t : Ty} {name : String} {m : Member}
    (hfresh : r.isRedefined t = false)
    (ht : (∃ kind e, t = .seq kind e) ∨ (∃ k v, t = .dictionary k v) ∨ ∃ e, t = .array e)
    (h : r.member? t name = some m) : m.ty = .int32 := by
  have hbuiltin : (builtinMember? t name).map (⟨name, ·⟩) = some m := by
    rw [← h, member?_builtin hfresh] <;>
      rcases ht with ⟨kind, e, rfl⟩ | ⟨k, v, rfl⟩ | ⟨e, rfl⟩ <;> simp
  obtain ⟨ty, hty, rfl⟩ := Option.map_eq_some_iff.mp hbuiltin
  rcases ht with ⟨kind, e, rfl⟩ | ⟨k, v, rfl⟩ | ⟨e, rfl⟩
  · by_cases hname : name = "Count"
    · subst hname
      cases kind <;> cases hty
      rfl
    · simp [builtinMember?, hname] at hty
  · by_cases hname : name = "Count"
    · subst hname
      cases hty
      rfl
    · simp [builtinMember?, hname] at hty
  · by_cases hname : name = "Length"
    · subst hname
      cases hty
      rfl
    · simp [builtinMember?, hname] at hty

theorem isRecord_of_inst_member {g : Nat} {args : List Ty} {name : String} {m : Member}
    (h : r.member? (.inst g args) name = some m) : r.isRecord (.inst g args) = true := by
  unfold member? at h
  split at h
  · rename_i hrecord
    simpa [isAnonymous] using hrecord
  · cases h

end Registry

namespace Value

theorem lookup_putField {fields : List (String × Value)} {name key : String} {v : Value} :
    (putField fields name v).lookup key = if key = name then some v else fields.lookup key := by
  have hother : ∀ {fs : List (String × Value)}, key ≠ name →
      (fs.map fun f => if f.1 == name then (name, v) else f).lookup key = fs.lookup key := by
    intro fs hne
    induction fs with
    | nil => rfl
    | cons f fs ih =>
        rw [List.map_cons, List.lookup_cons, List.lookup_cons, ih]
        by_cases hf : f.1 = name
        · subst hf
          simp [beq_false_of_ne hne]
        · simp [hf]
  have hsame : ∀ {fs : List (String × Value)}, fs.any (·.1 == name) = true →
      (fs.map fun f => if f.1 == name then (name, v) else f).lookup name = some v := by
    intro fs hany
    induction fs with
    | nil => cases hany
    | cons f fs ih =>
        rw [List.map_cons, List.lookup_cons]
        by_cases hf : f.1 = name
        · simp [hf]
        · have hrest : fs.any (·.1 == name) = true := by simpa [hf] using hany
          rw [if_neg (by simpa using hf), beq_false_of_ne (Ne.symm hf)]
          exact ih hrest
  unfold putField
  split
  · rename_i hany
    split
    · rename_i heq
      subst heq
      exact hsame hany
    · rename_i hne
      exact hother hne
  · rename_i hnone
    rw [List.lookup_append]
    split
    · rename_i heq
      subst heq
      have hlookup : fields.lookup key = none := by
        rw [List.lookup_eq_none_iff]
        intro f hf
        simpa [BEq.comm] using fun h => hnone (List.any_eq_true.mpr ⟨f, hf, h⟩)
      simp [hlookup]
    · rename_i hne
      simp [List.lookup_cons, beq_false_of_ne hne]

theorem eq_null {v : Value} (h : v.isNull = true) : v = .null := by
  cases v with
  | null => rfl
  | _ => cases h

end Value

namespace Configuration

variable {c : Configuration} {n : Nat} {v w : Value} {s t : Ty}

/-! ## §2  Unfolding -/

/-- Between types that are neither equal nor nullable. -/
def plainAs (c : Configuration) (n : Nat) (v : Value) (s t : Ty) : Except ValueError Value :=
  if c.types.isScalar s || c.types.isScalar t then c.scalarAs v s t
  else c.objectAs (c.valueWithin n) v s t

theorem valueWithin_self : c.valueWithin (n + 1) v t t = .ok v := by simp [valueWithin]

theorem valueWithin_null (hne : s ≠ t) : c.valueWithin (n + 1) .null s t = .ok .null := by
  simp [valueWithin, hne, Value.isNull]

theorem valueWithin_source {u : Ty} (hne : s ≠ t) (hv : v.isNull = false)
    (hs : c.types.underlying? s = some u) :
    c.valueWithin (n + 1) v s t = c.valueWithin n v u t := by
  simp [valueWithin, hne, hv, hs]

theorem valueWithin_target {u : Ty} (hne : s ≠ t) (hv : v.isNull = false)
    (hs : c.types.underlying? s = none) (ht : c.types.underlying? t = some u) :
    c.valueWithin (n + 1) v s t = c.valueWithin n v s u := by
  simp [valueWithin, hne, hv, hs, ht]

theorem valueWithin_plain (hne : s ≠ t) (hv : v.isNull = false)
    (hs : c.types.underlying? s = none) (ht : c.types.underlying? t = none) :
    c.valueWithin (n + 1) v s t = c.plainAs n v s t := by
  simp [valueWithin, plainAs, hne, hv, hs, ht]

/-- A list is mapped item by item. -/
theorem forall₂_itemsAs {f : ValueMapping} : ∀ {vs ws : List Value}, itemsAs f s t vs = .ok ws →
    List.Forall₂ (fun v w => f v s t = .ok w) vs ws
  | [], _, h => by
      cases h
      exact .nil
  | v :: vs, _, h => by
      simp only [itemsAs, Checked.bind_eq_ok] at h
      obtain ⟨u, hu, us, hus, hw⟩ := h
      cases hw
      exact .cons hu (forall₂_itemsAs hus)

/-! ## §3  Deeper mappings

A mapping that may go one level deeper gives every result it gave before. -/

/-- The second mapping gives every result of the first. -/
def Extends (f g : ValueMapping) : Prop := ∀ ⦃v s t w⦄, f v s t = .ok w → g v s t = .ok w

section Extends

variable {f g : ValueMapping} (h : Extends f g)

include h in
theorem ruleValue_extends {p : MemberRule} {u : Value} (hu : c.ruleValue f p s v = .ok u) :
    c.ruleValue g p s v = .ok u := by
  unfold ruleValue at hu ⊢
  split
  · rename_i hskip
    rwa [if_pos hskip] at hu
  · rename_i hskip
    rw [if_neg hskip] at hu
    split at hu
    · exact h hu
    · cases hu

include h in
theorem ruleValues_extends : ∀ {ps : List MemberRule} {done fields : List (String × Value)},
    c.ruleValues f s v done ps = .ok fields → c.ruleValues g s v done ps = .ok fields
  | [], _, _, hf => hf
  | p :: ps, done, fields, hf => by
      simp only [ruleValues, Checked.bind_eq_ok] at hf ⊢
      obtain ⟨u, hu, hrest⟩ := hf
      exact ⟨u, ruleValue_extends h hu, ruleValues_extends hrest⟩

include h in
theorem recordAs_extends {m : Mapping} (hw : c.recordAs f m v = .ok w) :
    c.recordAs g m v = .ok w := by
  simp only [recordAs, Checked.bind_eq_ok] at hw ⊢
  obtain ⟨fields, hfields, hrest⟩ := hw
  exact ⟨fields, ruleValues_extends h hfields, hrest⟩

include h in
theorem itemsAs_extends : ∀ {vs ws : List Value}, itemsAs f s t vs = .ok ws →
    itemsAs g s t vs = .ok ws
  | [], _, hf => hf
  | v :: vs, ws, hf => by
      simp only [itemsAs, Checked.bind_eq_ok] at hf ⊢
      obtain ⟨u, hu, us, hus, hws⟩ := hf
      exact ⟨u, h hu, us, itemsAs_extends hus, hws⟩

include h in
theorem objectAs_extends (hw : c.objectAs f v s t = .ok w) : c.objectAs g v s t = .ok w := by
  unfold objectAs at hw ⊢
  cases hm : c.mappingFor? v s t with
  | some m =>
      rw [hm] at hw
      exact recordAs_extends h hw
  | none =>
      rw [hm] at hw
      cases v with
      | list items =>
          dsimp only at hw ⊢
          split at hw
          · obtain ⟨ws, hws, rfl⟩ := Checked.map_eq_ok.mp hw
            exact Checked.map_eq_ok.mpr ⟨ws, itemsAs_extends h hws, rfl⟩
          · cases hw
      | _ => exact hw

end Extends

theorem valueWithin_extends : ∀ n, Extends (c.valueWithin n) (c.valueWithin (n + 1))
  | 0 => fun v s t w h => by cases h
  | n + 1 => fun v s t w h => by
      by_cases hne : s = t
      · subst hne
        rw [valueWithin_self] at h ⊢
        exact h
      cases hv : v.isNull with
      | true =>
          rw [Value.eq_null hv] at h ⊢
          rw [valueWithin_null hne] at h ⊢
          exact h
      | false =>
          cases hs : c.types.underlying? s with
          | some u =>
              rw [valueWithin_source hne hv hs] at h ⊢
              exact valueWithin_extends n h
          | none =>
              cases ht : c.types.underlying? t with
              | some u =>
                  rw [valueWithin_target hne hv hs ht] at h ⊢
                  exact valueWithin_extends n h
              | none =>
                  rw [valueWithin_plain hne hv hs ht] at h ⊢
                  unfold plainAs at h ⊢
                  split
                  · rename_i hscalar
                    rwa [if_pos hscalar] at h
                  · rename_i hscalar
                    rw [if_neg hscalar] at h
                    exact objectAs_extends (valueWithin_extends n) h

theorem valueWithin_mono {k : Nat} (hk : n ≤ k) (h : c.valueWithin n v s t = .ok w) :
    c.valueWithin k v s t = .ok w := by
  induction hk with
  | refl => exact h
  | step _ ih => exact valueWithin_extends _ ih

/-! ## §4  Nullable layers -/

/-- Between types with the same core every value is mapped to itself. -/
theorem valueWithin_eq_self_of_core : ∀ {n s t}, c.types.core s = c.types.core t →
    c.valueWithin n v s t = .ok w → w = v
  | 0, _, _, _, h => by cases h
  | n + 1, s, t, hcore, h => by
      by_cases hne : s = t
      · subst hne
        rw [valueWithin_self] at h
        cases h
        rfl
      cases hv : v.isNull with
      | true =>
          rw [Value.eq_null hv, valueWithin_null hne] at h
          cases h
          rw [Value.eq_null hv]
      | false =>
          cases hs : c.types.underlying? s with
          | some u =>
              rw [valueWithin_source hne hv hs] at h
              exact valueWithin_eq_self_of_core
                ((Registry.core_of_underlying? hs).symm.trans hcore) h
          | none =>
              cases ht : c.types.underlying? t with
              | some u =>
                  rw [valueWithin_target hne hv hs ht] at h
                  exact valueWithin_eq_self_of_core
                    (hcore.trans (Registry.core_of_underlying? ht)) h
              | none =>
                  rw [Registry.core_of_not_nullable hs, Registry.core_of_not_nullable ht] at hcore
                  exact absurd hcore hne

/-- Nullable layers are taken off before anything else is done. -/
theorem valueWithin_plainAs (hv : v.isNull = false) : ∀ {n s t},
    c.types.core s ≠ c.types.core t → c.valueWithin n v s t = .ok w →
      ∃ k < n, c.plainAs k v (c.types.core s) (c.types.core t) = .ok w
  | 0, _, _, _, h => by cases h
  | n + 1, s, t, hcore, h => by
      have hne : s ≠ t := fun heq => hcore (heq ▸ rfl)
      cases hs : c.types.underlying? s with
      | some u =>
          rw [valueWithin_source hne hv hs] at h
          rw [Registry.core_of_underlying? hs] at hcore ⊢
          obtain ⟨k, hk, hplain⟩ := valueWithin_plainAs hv hcore h
          exact ⟨k, Nat.lt_succ_of_lt hk, hplain⟩
      | none =>
          cases ht : c.types.underlying? t with
          | some u =>
              rw [valueWithin_target hne hv hs ht] at h
              rw [Registry.core_of_underlying? ht] at hcore ⊢
              obtain ⟨k, hk, hplain⟩ := valueWithin_plainAs hv hcore h
              exact ⟨k, Nat.lt_succ_of_lt hk, hplain⟩
          | none =>
              rw [valueWithin_plain hne hv hs ht] at h
              rw [Registry.core_of_not_nullable hs, Registry.core_of_not_nullable ht]
              exact ⟨n, Nat.lt_succ_self n, h⟩

/-- A value that is not null is mapped to the type under a nullable target as to the target. -/
theorem valueWithin_strip_target {u : Ty} (hv : v.isNull = false)
    (ht : c.types.underlying? t = some u) :
    ∀ {n s}, c.valueWithin n v s t = .ok w → c.valueWithin (n + 1) v s u = .ok w
  | 0, _, h => by cases h
  | n + 1, s, h => by
      have hne' : t ≠ u := (Registry.underlying?_eq_some ht).1 ▸ Registry.nullable_ne_self u
      by_cases hne : s = t
      · rw [hne, valueWithin_self] at h
        rw [hne, valueWithin_source hne' hv ht, valueWithin_self]
        exact h
      cases hs : c.types.underlying? s with
      | some s' =>
          rw [valueWithin_source hne hv hs] at h
          have hstripped := valueWithin_strip_target hv ht h
          by_cases heq : s = u
          · have hcore : c.types.core s' = c.types.core u :=
              heq ▸ (Registry.core_of_underlying? hs).symm
            rw [heq, valueWithin_self, valueWithin_eq_self_of_core hcore hstripped]
          · rw [valueWithin_source heq hv hs]
            exact hstripped
      | none =>
          rw [valueWithin_target hne hv hs ht] at h
          exact valueWithin_mono (by omega) h

/-- The value under a nullable type, mapped to the type under a nullable target. -/
theorem valueWithin_strip {s' t' : Ty} (hv : v.isNull = false) (hne : s ≠ t)
    (hs : c.types.underlying? s = some s') (ht : c.types.underlying? t = some t')
    (h : c.valueWithin n v s t = .ok w) : c.valueWithin n v s' t' = .ok w := by
  cases n with
  | zero => cases h
  | succ n =>
      rw [valueWithin_source hne hv hs] at h
      exact valueWithin_strip_target hv ht h

/-! ## §5  Nulls -/

theorem castValue_isNull {r : Registry} (hv : v.isNull = false) (h : r.castValue v s t = .ok w) :
    w.isNull = false := by
  unfold Registry.castValue at h
  simp only [hv, Bool.false_eq_true, if_false] at h
  split at h
  · rename_i u hu
    cases h
    split at hu
    · unfold Registry.toVariant? at hu
      split at hu
      · split at hu <;> cases hu
        rfl
      · split at hu
        · cases hu
        · obtain ⟨_, -, rfl⟩ := Option.map_eq_some_iff.mp hu
          rfl
      · cases hu
    · split at hu
      · unfold Registry.toLiteral? at hu
        split at hu
        · cases hu
          rfl
        · cases hu
          rfl
        · obtain ⟨_, -, hn⟩ := Option.bind_eq_some_iff.mp hu
          obtain ⟨_, -, rfl⟩ := Option.map_eq_some_iff.mp hn
          rfl
        · split at hu
          · obtain ⟨_, -, rfl⟩ := Option.map_eq_some_iff.mp hu
            rfl
          · split at hu
            · obtain ⟨_, -, rfl⟩ := Option.map_eq_some_iff.mp hu
              rfl
            · cases hu
              exact hv
      · cases hu
        exact hv
  · cases h

theorem converted_isNull (hv : v.isNull = false) (h : c.converted v s t = .ok w) :
    w.isNull = false := by
  unfold converted at h
  split at h
  · rename_i u hu
    cases h
    exact castValue_isNull hv hu
  · cases h

theorem scalarAs_isNull (hv : v.isNull = false) (h : c.scalarAs v s t = .ok w) :
    w.isNull = false := by
  have hvariant : ∀ {target variants name}, c.variantNamed target variants name = .ok w →
      w.isNull = false := by
    intro target variants name h
    unfold variantNamed at h
    split at h <;> cases h
    rfl
  unfold scalarAs at h
  dsimp only at h
  split at h
  · split at h
    · exact hvariant h
    · exact hvariant h
    · exact converted_isNull hv h
  · split at h
    · cases h
      rfl
    · split at h
      · exact converted_isNull hv h
      · cases h
    · cases h

theorem objectAs_isNull {f : ValueMapping} (hv : v.isNull = false)
    (h : c.objectAs f v s t = .ok w) : w.isNull = false := by
  unfold objectAs at h
  split at h
  · simp only [recordAs, Checked.bind_eq_ok] at h
    obtain ⟨fields, -, hw⟩ := h
    cases hw
    rfl
  · split at h
    · split at h
      · obtain ⟨ws, -, rfl⟩ := Checked.map_eq_ok.mp h
        rfl
      · cases h
    · split at h <;> cases h
      rfl
    · split at h <;> cases h
      exact hv

/-- Null is mapped to null and nothing else is. -/
theorem valueWithin_isNull (h : c.valueWithin n v s t = .ok w) : w.isNull = v.isNull := by
  by_cases hcore : c.types.core s = c.types.core t
  · rw [valueWithin_eq_self_of_core hcore h]
  cases hv : v.isNull with
  | true =>
      have hne : s ≠ t := fun heq => hcore (heq ▸ rfl)
      cases n with
      | zero => cases h
      | succ n =>
          rw [Value.eq_null hv, valueWithin_null hne] at h
          cases h
          rfl
  | false =>
      obtain ⟨k, -, hplain⟩ := valueWithin_plainAs hv hcore h
      unfold plainAs at hplain
      split at hplain
      · exact scalarAs_isNull hv hplain
      · exact objectAs_isNull hv hplain

/-! ## §6  Records -/

/-- The field of a name holds what the rule of that name gives, when it is the only rule. -/
theorem lookup_ruleValues {f : ValueMapping} {p : MemberRule} :
    ∀ {ps : List MemberRule} {done fields : List (String × Value)},
      (∀ q ∈ ps, q.member.name = p.member.name → q = p) →
      (p ∈ ps ∨ ∃ u, done.lookup p.member.name = some u ∧ c.ruleValue f p s v = .ok u) →
      c.ruleValues f s v done ps = .ok fields →
        ∃ u, fields.lookup p.member.name = some u ∧ c.ruleValue f p s v = .ok u
  | [], _, _, _, hp, hfields => by
      cases hfields
      exact hp.resolve_left (by simp)
  | q :: ps, done, fields, honly, hp, hfields => by
      simp only [ruleValues, Checked.bind_eq_ok] at hfields
      obtain ⟨u, hu, hfields⟩ := hfields
      refine lookup_ruleValues (fun x hx => honly x (List.mem_cons_of_mem _ hx)) ?_ hfields
      by_cases hq : q.member.name = p.member.name
      · obtain rfl := honly q List.mem_cons_self hq
        exact .inr ⟨u, by simp [Value.lookup_putField], hu⟩
      · rcases hp with hp | ⟨w, hw, hval⟩
        · rcases List.mem_cons.mp hp with rfl | hp
          · exact absurd rfl hq
          · exact .inl hp
        · exact .inr ⟨w, by rw [Value.lookup_putField, if_neg (Ne.symm hq), hw], hval⟩

/-- Without inclusion all rules of a name are the first one of that name. -/
theorem allRules_of_no_bases {m : Mapping} (h : m.bases = []) {name : String} {p : MemberRule}
    (hp : m.ownRule? name = some p) :
    p ∈ c.allRules m ∧ ∀ q ∈ c.allRules m, q.member.name = p.member.name → q = p := by
  obtain ⟨hmem, rfl⟩ := Mapping.ownRule?_mem hp
  constructor
  · refine List.mem_filterMap.mpr ⟨p, hmem, ?_⟩
    rw [memberRule?_of_no_bases h]
    exact hp
  · intro q hq hname
    obtain ⟨q', -, hq'⟩ := List.mem_filterMap.mp hq
    rw [memberRule?_of_no_bases h] at hq'
    obtain ⟨-, hname'⟩ := Mapping.ownRule?_mem hq'
    rw [← hname', hname, hp] at hq'
    exact (Option.some.inj hq').symm

/-- A field of a mapped record is what the rule of its name gives. -/
theorem recordAs_field {f : ValueMapping} {m : Mapping} {name : String} {p : MemberRule}
    (hbases : m.bases = []) (hp : m.ownRule? name = some p) (h : c.recordAs f m v = .ok w) :
    ∃ fields u, w = .record m.destination fields ∧ fields.lookup name = some u ∧
      c.ruleValue f p m.source v = .ok u := by
  simp only [recordAs, Checked.bind_eq_ok] at h
  obtain ⟨fields, hfields, hw⟩ := h
  cases hw
  obtain ⟨hmem, honly⟩ := allRules_of_no_bases (c := c) hbases hp
  obtain ⟨u, hu, hval⟩ := lookup_ruleValues honly (.inl hmem) hfields
  exact ⟨fields, u, rfl, by rw [← (Mapping.ownRule?_mem hp).2]; exact hu, hval⟩

/-- Every mapping relates record types. -/
def MapsRecords (c : Configuration) : Prop :=
  ∀ m ∈ c.maps, c.types.isRecord m.source = true ∧ c.types.isRecord m.destination = true

theorem MapsRecords.mapping? (h : c.MapsRecords) {m : Mapping} (hm : c.mapping? s t = some m) :
    c.types.isRecord s = true ∧ c.types.isRecord t = true := by
  obtain ⟨hmem, rfl, rfl⟩ := mapping?_mem hm
  exact h m hmem

theorem MapsRecords.unmapped (h : c.MapsRecords) (ht : c.types.isRecord t = false) (u : Ty) :
    c.mapping? u t = none := by
  cases hm : c.mapping? u t with
  | none => rfl
  | some m => simp [(h.mapping? hm).2] at ht

/-- Between records a value goes through `objectAs`, one level down. -/
theorem valueWithin_records (hs : c.types.isRecord s = true) (ht : c.types.isRecord t = true)
    (hne : s ≠ t) (hv : v.isNull = false) (h : c.valueWithin n v s t = .ok w) :
    ∃ k, n = k + 1 ∧ c.objectAs (c.valueWithin k) v s t = .ok w := by
  cases n with
  | zero => cases h
  | succ k =>
      rw [valueWithin_plain hne hv (Registry.underlying?_of_record hs)
        (Registry.underlying?_of_record ht)] at h
      simp only [plainAs, Registry.isScalar_of_record hs, Registry.isScalar_of_record ht,
        Bool.or_self, Bool.false_eq_true, if_false] at h
      exact ⟨k, rfl, h⟩

/-- What is read from a mapped record is what feeds the member, mapped one level down.  A value
that is no record would stay as it is where the source extends the destination. -/
theorem valueWithin_field {map : Mapping} {name : String} {p : MemberRule} {u : Value}
    (hmaps : c.MapsRecords) (hincludes : c.NoIncludes) (hm : c.mapping? s t = some map)
    (hp : map.ownRule? name = some p) (hused : (p.isFed && !p.ignored) = true) (hne : s ≠ t)
    (hv : v.isNull = false → v.asFields?.isSome = true ∨ c.types.isAssignable s t = false)
    (hw : c.valueWithin n v s t = .ok w)
    (hu : valueMember (c.types.underlying? t).isSome w name = .ok u) :
    v.isNull = false ∧ ∃ k raw, n = k + 1 ∧ c.rawValue p s v = .ok (raw, p.inputType?.getD p.member.ty) ∧
      c.valueWithin k raw (p.inputType?.getD p.member.ty) p.member.ty = .ok u := by
  obtain ⟨hs, ht⟩ := hmaps.mapping? hm
  obtain ⟨hmem, rfl, -⟩ := mapping?_mem hm
  have hnullable := Registry.underlying?_of_record ht
  have hnull : v.isNull = false := by
    rw [← valueWithin_isNull hw]
    cases w with
    | null => simp [valueMember, hnullable, Value.isNull] at hu
    | _ => rfl
  obtain ⟨k, rfl, hobject⟩ := valueWithin_records hs ht hne hnull hw
  have hv := hv hnull
  have hrecord : c.recordAs (c.valueWithin k) map v = .ok w := by
    unfold objectAs at hobject
    cases v with
    | record own fields =>
        simpa only [mappingFor?, hm, Option.some_or] using hobject
    | list items =>
        simp [mappingFor?, Registry.element?_of_record hs] at hobject
    | _ => simp_all [mappingFor?, Value.asFields?]
  obtain ⟨fields, x, rfl, hx, hrule⟩ := recordAs_field (hincludes map hmem).1 hp hrecord
  obtain rfl : x = u := by
    simpa [valueMember, hnullable, Value.isNull, ownMember?, hx] using hu
  unfold ruleValue at hrule
  simp only [Bool.and_eq_true, Bool.not_eq_true'] at hused
  simp only [hused.1, hused.2, Bool.not_true, Bool.or_self, Bool.false_eq_true, if_false] at hrule
  split at hrule
  · rename_i raw ty hraw
    have hty : ty = p.inputType?.getD p.member.ty := by
      unfold rawValue at hraw
      dsimp only at hraw
      split at hraw
      · obtain ⟨_, -, hpair⟩ := Checked.map_eq_ok.mp hraw
        cases hpair
        rfl
      · split at hraw <;> cases hraw <;> rfl
    subst hty
    exact ⟨hnull, k, raw, rfl, hraw, hrule⟩
  · cases hrule

/-! ## §7  Types alike

Constructed types over one generic definition, and literals, have the same members
by themselves. -/

theorem mappingFor?_unmapped (h : ∀ u, c.mapping? u t = none) : c.mappingFor? v s t = none := by
  cases v <;> simp [mappingFor?, h]

/-- Without a mapping a list stays a list of the same length, and anything else stays as it is. -/
theorem objectAs_unmapped {f : ValueMapping} (hnone : c.mappingFor? v s t = none)
    (h : c.objectAs f v s t = .ok w) :
    (w = v ∧ c.types.isAssignable s t = true) ∨
      ∃ vs ws, v = .list vs ∧ w = .list ws ∧ ws.length = vs.length ∧
        (c.types.element? t).isSome = true := by
  simp only [objectAs, hnone] at h
  cases v with
  | list vs =>
      dsimp only at h
      split at h
      · rename_i ht
        obtain ⟨ws, hws, rfl⟩ := Checked.map_eq_ok.mp h
        exact .inr ⟨vs, ws, rfl, rfl, (forall₂_itemsAs hws).length_eq.symm, by simp [ht]⟩
      · cases h
  | _ =>
      dsimp only at h
      split at h
      · rename_i hassignable
        cases h
        exact .inl ⟨rfl, hassignable⟩
      · cases h

/-- The same members are read off the two values. -/
def Alike (v w : Value) : Prop :=
  w.isNull = v.isNull ∧ ∀ name, ownMember? w name = ownMember? v name

theorem Alike.read {name : String} {u : Value} (h : Alike v w)
    (hu : valueMember false w name = .ok u) : valueMember false v name = .ok u := by
  unfold valueMember at hu ⊢
  rw [h.1] at hu
  cases hv : v.isNull with
  | true => simp [hv] at hu
  | false =>
      simp only [hv, Bool.false_and, Bool.false_eq_true, if_false] at hu ⊢
      rw [h.2] at hu
      cases hown : ownMember? v name with
      | none => simp [hown] at hu
      | some x =>
          rw [hown] at hu
          exact hu

/-- Types that are neither nullable nor scalar, without a mapping to the second. -/
structure Apart (c : Configuration) (s t : Ty) : Prop where
  differ : s ≠ t
  source : c.types.underlying? s = none
  target : c.types.underlying? t = none
  scalar : (c.types.isScalar s || c.types.isScalar t) = false
  unmapped : ∀ u, c.mapping? u t = none

theorem Apart.objectAs (h : c.Apart s t) (hv : v.isNull = false)
    (hw : c.valueWithin n v s t = .ok w) : ∃ k, c.objectAs (c.valueWithin k) v s t = .ok w := by
  cases n with
  | zero => cases hw
  | succ k =>
      rw [valueWithin_plain h.differ hv h.source h.target, plainAs, h.scalar] at hw
      exact ⟨k, hw⟩

theorem Apart.alike (h : c.Apart s t) (hw : c.valueWithin n v s t = .ok w) : Alike v w := by
  refine ⟨valueWithin_isNull hw, fun name => ?_⟩
  cases hv : v.isNull with
  | true =>
      have hnull := valueWithin_isNull hw
      rw [hv] at hnull
      rw [Value.eq_null hv, Value.eq_null hnull]
  | false =>
      obtain ⟨k, hobject⟩ := h.objectAs hv hw
      rcases objectAs_unmapped (mappingFor?_unmapped h.unmapped) hobject with
        ⟨rfl, -⟩ | ⟨vs, ws, rfl, rfl, hlength, -⟩
      · rfl
      · simp [ownMember?, hlength]

/-- Only null is mapped where the target has no elements and is not the wider type. -/
theorem Apart.isNull (h : c.Apart s t) (hassignable : c.types.isAssignable s t = false)
    (helement : c.types.element? t = none) (hw : c.valueWithin n v s t = .ok w) :
    w.isNull = true := by
  rw [valueWithin_isNull hw]
  cases hv : v.isNull with
  | true => rfl
  | false =>
      obtain ⟨k, hobject⟩ := h.objectAs hv hw
      rcases objectAs_unmapped (mappingFor?_unmapped h.unmapped) hobject with
        ⟨-, hyes⟩ | ⟨_, _, -, -, -, hyes⟩
      · simp [hassignable] at hyes
      · simp [helement] at hyes

/-- A date is read the same with an offset and without. -/
theorem ownMember?_toLiteral {r : Registry} {l : Literal} (hl : l = .dateTime ∨ l = .dateTimeOffset)
    (h : r.toLiteral? s l v = some w) (name : String) : ownMember? w name = ownMember? v name := by
  have hkeep : ∀ {x : Value}, (if l.isIntegral then (r.numberOf? s x).map fun n => Value.int n.asInt64
      else if l.isFractional then (r.numberOf? s x).map fun n => Value.num (.float n.toFloat)
      else some x) = some w → w = x := by
    rintro x hx
    rcases hl with rfl | rfl <;> exact (Option.some.inj hx).symm
  unfold Registry.toLiteral? at h
  split at h
  · cases h
    rfl
  · rename_i t
    cases h
    have hsame : (OffsetTime.atZero t).toLocal = t := by
      simp [OffsetTime.atZero, OffsetTime.toLocal]
    simp [ownMember?, hsame]
  · rcases hl with h | h <;> cases h
  · rw [hkeep h]

theorem alike_of_dates {l l' : Literal}
    (hl : c.types.literal? (.literal l) = some l) (hl' : c.types.literal? (.literal l') = some l')
    (hdate : l' = .dateTime ∨ l' = .dateTimeOffset) (hne : l ≠ l')
    (hw : c.valueWithin n v (.literal l) (.literal l') = .ok w) : Alike v w := by
  refine ⟨valueWithin_isNull hw, fun name => ?_⟩
  cases hv : v.isNull with
  | true =>
      have hnull := valueWithin_isNull hw
      rw [hv] at hnull
      rw [Value.eq_null hv, Value.eq_null hnull]
  | false =>
      cases n with
      | zero => cases hw
      | succ n =>
          have hplain : ∀ l, c.types.stripNullable (.literal l) = .literal l := fun _ => rfl
          have hvariants : ∀ l, c.types.variants? (.literal l) = none := fun _ => rfl
          have hscalar : c.types.isScalar (.literal l) = true := by
            simp [Registry.isScalar, Registry.isLiteral, hl]
          rw [valueWithin_plain (by simpa using hne) hv rfl rfl] at hw
          have hconverted : c.converted v (.literal l) (.literal l') = .ok w := by
            rcases hdate with rfl | rfl <;>
              simpa only [plainAs, hscalar, Bool.true_or, if_true, scalarAs, hplain, hvariants,
                hl'] using hw
          have hliteral : c.types.toLiteral? (.literal l) l' v = some w := by
            simp only [converted, Registry.castValue, hv, hplain, hvariants, hl',
              Bool.false_eq_true, if_false] at hconverted
            split at hconverted
            · rename_i hcast
              cases hconverted
              split at hcast
              · rename_i hsome
                cases hcast
                exact hsome
              · cases hcast
            · cases hconverted
          exact ownMember?_toLiteral hdate hliteral name

/-- A value with one type on both sides, or the value itself with the types under two nullable
types. -/
def Beneath (c : Configuration) (v : Value) (s t : Ty) (x : Value) (s' t' : Ty) : Prop :=
  s' = t' ∨ x = v ∧ c.types.underlying? s = some s' ∧ c.types.underlying? t = some t'

/-- The same member of both values, where the two types are read alike and agree on its type. -/
theorem Alike.member {name : String} {u : Value} {m d : Member} (h : Alike v w)
    (hw : c.valueWithin n v s t = .ok w) (hty : d.ty = m.ty)
    (hu : valueMember false w name = .ok u) :
    ∃ x, valueMember false v name = .ok x ∧ c.valueWithin n x d.ty m.ty = .ok u ∧
      c.Beneath v s t x d.ty m.ty := by
  cases n with
  | zero => cases hw
  | succ n => exact ⟨u, h.read hu, by rw [hty, valueWithin_self], .inl hty⟩

theorem Apart.of_former {F : TyFormer} (hmaps : c.MapsRecords) (hs : c.types.FormedBy F s)
    (ht : c.types.FormedBy F t) (hne : s ≠ t) (hF : F ≠ .nullable) (hinst : ∀ g, F ≠ .record g) :
    c.Apart s t := by
  have hrecord : c.types.isRecord t = false := by
    cases ht with
    | record => exact absurd rfl (hinst _)
    | _ => exact Registry.isRecord_of_constructed ‹_› (by simp) (by simp)
  refine ⟨hne, ?_, ?_, ?_, hmaps.unmapped hrecord⟩
  · cases hs <;> first | rfl | exact absurd rfl hF
  · cases ht <;> first | rfl | exact absurd rfl hF
  · cases hs <;> cases ht <;> first | rfl | exact absurd rfl hF

/-- A member of a nullable value: whether there is a value, and the value. -/
theorem nullable_member {name : String} {u : Value} {m d : Member} {s' t' : Ty}
    (hs : c.types.underlying? s = some s') (ht : c.types.underlying? t = some t') (hne : s ≠ t)
    (hm : c.types.member? t name = some m) (hd : c.types.member? s name = some d)
    (hw : c.valueWithin n v s t = .ok w) (hu : valueMember true w name = .ok u) :
    ∃ x, valueMember true v name = .ok x ∧ c.valueWithin n x d.ty m.ty = .ok u ∧
      c.Beneath v s t x d.ty m.ty := by
  obtain ⟨hform, hfresh⟩ := Registry.underlying?_eq_some hs
  obtain ⟨hform', hfresh'⟩ := Registry.underlying?_eq_some ht
  rw [Registry.member?_builtin hfresh (by simp [hform]) (by simp [hform]) (by simp [hform]),
    hform] at hd
  rw [Registry.member?_builtin hfresh' (by simp [hform']) (by simp [hform']) (by simp [hform']),
    hform'] at hm
  have hnull := valueWithin_isNull hw
  by_cases hhas : name = "HasValue"
  · subst hhas
    cases hm
    cases hd
    cases hu
    cases n with
    | zero => cases hw
    | succ n => exact ⟨.bool (!v.isNull), rfl, by rw [valueWithin_self, hnull], .inl rfl⟩
  · by_cases hvalue : name = "Value"
    · subst hvalue
      cases hm
      cases hd
      cases hv : v.isNull with
      | true => simp [valueMember, hnull, hv] at hu
      | false =>
          obtain rfl : w = u := by simpa [valueMember, hnull, hv] using hu
          exact ⟨v, by simp [valueMember, hv], valueWithin_strip hv hne hs ht hw, .inr ⟨rfl, hs, ht⟩⟩
    · simp [Registry.builtinMember?, hhas, hvalue] at hm

/-- Literals other than one and the same have members in common only where both are dates. -/
theorem literal_member {name : String} {u : Value} {m d : Member}
    (ht : c.types.isLiteral t = true) (hs : c.types.isLiteral s = true) (hne : s ≠ t)
    (hm : c.types.member? t name = some m) (hd : c.types.member? s name = some d)
    (hw : c.valueWithin n v s t = .ok w)
    (hu : valueMember (c.types.underlying? t).isSome w name = .ok u) :
    ∃ x, valueMember (c.types.underlying? s).isSome v name = .ok x ∧
      c.valueWithin n x d.ty m.ty = .ok u ∧ c.Beneath v s t x d.ty m.ty := by
  obtain ⟨hfresh, hs⟩ := Registry.isLiteral_cases hs
  obtain ⟨hfresh', ht⟩ := Registry.isLiteral_cases ht
  have hd' : (Registry.builtinMember? s name).map (⟨name, ·⟩) = some d := by
    rw [← hd, Registry.member?_builtin hfresh] <;> rcases hs with ⟨l, rfl, -⟩ | ⟨a, rfl⟩ <;> simp
  have hm' : (Registry.builtinMember? t name).map (⟨name, ·⟩) = some m := by
    rw [← hm, Registry.member?_builtin hfresh'] <;> rcases ht with ⟨l, rfl, -⟩ | ⟨a, rfl⟩ <;> simp
  obtain ⟨a, ha, rfl⟩ := Option.map_eq_some_iff.mp hd'
  obtain ⟨b, hb, rfl⟩ := Option.map_eq_some_iff.mp hm'
  -- the names of nullable members are no names of literal members
  rcases hs with ⟨l, rfl, hl⟩ | ⟨s', rfl⟩
  · rcases ht with ⟨l', rfl, hl'⟩ | ⟨t', rfl⟩
    · have hll : l ≠ l' := fun h => hne (congrArg Ty.literal h)
      have hdate : (l' = .dateTime ∨ l' = .dateTimeOffset) ∧ a = b := by
        rcases Registry.builtinMember?_literal ha with ⟨rfl, rfl, rfl⟩ | ⟨-, h⟩
        · rcases Registry.builtinMember?_literal hb with ⟨rfl, -, -⟩ | ⟨-, h⟩
          · exact absurd rfl hll
          · simp at h
        · rcases Registry.builtinMember?_literal hb with ⟨rfl, rfl, rfl⟩ | ⟨hdate, h'⟩
          · simp at h
          · refine ⟨hdate, ?_⟩
            rcases h with ⟨hname, rfl⟩ | ⟨hname, rfl⟩ <;>
              rcases h' with ⟨hname', rfl⟩ | ⟨hname', rfl⟩
            · rfl
            · simp [hname'] at hname
            · simp [hname] at hname'
            · rfl
      exact (alike_of_dates hl hl' hdate.1 hll hw).member hw hdate.2 hu
    · rcases Registry.builtinMember?_nullable hb with rfl | rfl <;>
        simpa using Registry.builtinMember?_literal ha
  · rcases ht with ⟨l', rfl, hl'⟩ | ⟨t', rfl⟩
    · rcases Registry.builtinMember?_nullable ha with rfl | rfl <;>
        simpa using Registry.builtinMember?_literal hb
    · have hs' := Registry.underlying?_nullable hfresh
      have ht' := Registry.underlying?_nullable hfresh'
      rw [ht'] at hu
      rw [hs']
      exact nullable_member hs' ht' hne hm hd hw hu

/-- A member of two types that are read alike: the value read on the first side is mapped to the
value read on the second. -/
theorem alike_member {name : String} {u : Value} {m d : Member} (hmaps : c.MapsRecords)
    (halike : (c.sharesFormer t s || (c.types.isLiteral t && c.types.isLiteral s)) = true)
    (hne : s ≠ t)
    (hapart : c.sharesFormer t s = true → c.types.isRecord t = true →
      c.types.isAssignable s t = false ∧ ∀ u, c.mapping? u t = none)
    (hm : c.types.member? t name = some m) (hd : c.types.member? s name = some d)
    (hw : c.valueWithin n v s t = .ok w)
    (hu : valueMember (c.types.underlying? t).isSome w name = .ok u) :
    ∃ x, valueMember (c.types.underlying? s).isSome v name = .ok x ∧
      c.valueWithin n x d.ty m.ty = .ok u ∧ c.Beneath v s t x d.ty m.ty := by
  cases hshares : c.sharesFormer t s with
  | false =>
      simp only [hshares, Bool.false_or, Bool.and_eq_true] at halike
      exact literal_member halike.1 halike.2 hne hm hd hw hu
  | true =>
      have happ := hapart hshares
      simp only [sharesFormer, Bool.and_eq_true, beq_iff_eq] at hshares
      obtain ⟨⟨hsome, heq⟩, -⟩ := hshares
      obtain ⟨F, hF⟩ := Option.isSome_iff_exists.mp hsome
      have ht := Registry.formedBy_of_former? hF
      have hs := Registry.formedBy_of_former? (heq ▸ hF)
      -- between these types only null is mapped, and no member is read from it
      have hnever : c.Apart s t → c.types.isAssignable s t = false → c.types.element? t = none →
          ∃ x, valueMember (c.types.underlying? s).isSome v name = .ok x ∧
            c.valueWithin n x d.ty m.ty = .ok u ∧ c.Beneath v s t x d.ty m.ty := by
        intro h hassignable helement
        have hnull := h.isNull hassignable helement hw
        simp [valueMember, h.target, hnull] at hu
      cases ht with
      | record =>
          cases hs
          have hsrecord := Registry.isRecord_of_inst_member hd
          have htrecord := Registry.isRecord_of_inst_member hm
          obtain ⟨hassignable, hunmapped⟩ := happ htrecord
          refine hnever ⟨hne, rfl, rfl, ?_, hunmapped⟩ hassignable
            (Registry.element?_of_record htrecord)
          rw [Registry.isScalar_of_record hsrecord, Registry.isScalar_of_record htrecord]
          rfl
      | keyValue hfresh' =>
          have happart := Apart.of_former hmaps hs (.keyValue hfresh') hne (by simp) (by simp)
          cases hs with
          | keyValue hfresh =>
              refine hnever happart ?_ (by simp [Registry.element?])
              simp [Registry.isAssignable, Registry.extends?, hne,
                Registry.isRecord_of_constructed hfresh (by simp) (by simp)]
      | nullable hfresh' =>
          cases hs with
          | nullable hfresh =>
              rw [Registry.underlying?_nullable hfresh'] at hu
              rw [Registry.underlying?_nullable hfresh]
              exact nullable_member (Registry.underlying?_nullable hfresh)
                (Registry.underlying?_nullable hfresh') hne hm hd hw hu
      | seq hfresh' =>
          have happart := Apart.of_former hmaps hs (.seq hfresh') hne (by simp) (by simp)
          cases hs with
          | seq hfresh =>
              refine (happart.alike hw).member hw ?_ hu
              rw [Registry.ty_of_container_member hfresh (.inl ⟨_, _, rfl⟩) hd,
                Registry.ty_of_container_member hfresh' (.inl ⟨_, _, rfl⟩) hm]
      | dictionary hfresh' =>
          have happart := Apart.of_former hmaps hs (.dictionary hfresh') hne (by simp) (by simp)
          cases hs with
          | dictionary hfresh =>
              refine (happart.alike hw).member hw ?_ hu
              rw [Registry.ty_of_container_member hfresh (.inr (.inl ⟨_, _, rfl⟩)) hd,
                Registry.ty_of_container_member hfresh' (.inr (.inl ⟨_, _, rfl⟩)) hm]
      | array hfresh' =>
          have happart := Apart.of_former hmaps hs (.array hfresh') hne (by simp) (by simp)
          cases hs with
          | array hfresh =>
              refine (happart.alike hw).member hw ?_ hu
              rw [Registry.ty_of_container_member hfresh (.inr (.inr ⟨_, rfl⟩)) hd,
                Registry.ty_of_container_member hfresh' (.inr (.inr ⟨_, rfl⟩)) hm]

end Configuration

end Recast
