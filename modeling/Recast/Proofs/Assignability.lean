import Mathlib.Data.List.Perm.Subperm
import Mathlib.Order.Defs.Unbundled
import Recast.Proofs.Interning
import Recast.Proofs.RuntimeShape

/-! # The order of types

A value of one type may stand for a value of another: as `Object`, lifted to
`Nullable<>`, as one of its bases, as a sequence of wider elements or as a delegate
with a wider result.  The rules combine, below elements and results to any depth, and
still no two types stand for each other.

- `Registry.holds` — the types that a registry can come to hold.
- `Registry.Lineal` — every base is a record, and no record comes before itself.
- `Registry.descendsFrom_iff` — the walk along the bases meets every one of them.
- `Registry.Widens`, `isAssignable_iff_widens` — the rules as a relation.
- `Registry.isAssignable_isPartialOrder` — assignability is a partial order.
-/

namespace Recast

namespace Registry

/-! ## §1  Types of a registry -/

section Holds

variable (r : Registry)

mutual

/-- The type can be had from the registry: what it mentions is declared or was closed, and
`Nullable<>` is not put around a type that takes null. -/
def holds : Ty → Bool
  | .declared id => decide (id < r.declarations.length)
  | .inst g args => (r.instance? (.inst g args)).isSome && holdsAll args
  | .nullable u => holds u && r.isValueType u && (r.underlying? u).isNone
  | .array u | .seq _ u | .expression u => holds u
  | .dictionary k v | .keyValue k v => holds k && holds v
  | .func ps ret => holdsAll ps && holds ret
  | .anonymous ms => holdsMembers ms
  | .object | .void | .literal _ | .param _ => true

def holdsAll : List Ty → Bool
  | [] => true
  | t :: ts => holds t && holdsAll ts

def holdsMembers : List Member → Bool
  | [] => true
  | ⟨_, t⟩ :: ms => holds t && holdsMembers ms

end

/-- Every record that the registry holds, as long as nothing that is built is one. -/
def heldRecords : List Ty :=
  (List.range r.declarations.length).map .declared ++ r.instances.map (·.1)

end Holds

variable {r : Registry} {s t u e : Ty}

@[simp] theorem holds_nullable_iff : r.holds (.nullable u) = true ↔
    r.holds u = true ∧ r.isValueType u = true ∧ r.underlying? u = none := by
  simp [holds, and_assoc]

theorem holds_of_element? (h : r.holds t = true) (ht : r.element? t = some e) :
    r.holds e = true := by
  rcases element?_kind.mp ht with hk | ⟨kind, hk⟩ | ⟨k, v, hk, rfl⟩ <;>
    obtain ⟨rfl, -⟩ := kind?_eq_built.mp hk <;> simpa [holds, Shape.ty] using h

/-- Every type that is built is what it is built as. -/
def Unaltered (r : Registry) : Prop := ∀ t : Ty, t.shape?.isSome = true → r.isRedefined t = false

theorem isRecord_of_shape? (hfresh : r.isRedefined t = false) (ht : t.shape?.isSome = true) :
    r.isRecord t = false := by
  apply isRecord_of_constructed hfresh
  · rintro id rfl
    cases ht
  · rintro g args rfl
    cases ht

theorem not_isValueType_of_record (h : r.isRecord t = true) : r.isValueType t = false := by
  obtain ⟨d, hd⟩ := Option.isSome_iff_exists.mp h
  rw [← kind?_record] at hd
  rw [← Bool.not_eq_true, isValueType_kind]
  simp [hd]

/-! ## §2  Base chains -/

/-- Only what is declared is redefined, every base is a record, and no record is among its own
bases. -/
structure Lineal (r : Registry) : Prop where
  fresh : r.Unaltered
  bases : ∀ s b, r.holds s = true → r.base? s = some b → r.holds b = true ∧ r.isRecord b = true
  acyclic : ∀ s, r.holds s = true → ¬ Relation.TransGen (fun a b => r.base? a = some b) s s

/-- A type that is no record derives from itself only. -/
theorem Derives.eq_or_isRecord (h : r.Derives s t) : s = t ∨ r.isRecord s = true := by
  cases h using Relation.ReflTransGen.head_induction_on with
  | refl => exact .inl rfl
  | head hbase _ => exact .inr (isRecord_of_base? hbase)

theorem Lineal.isRecord_eq_false (hr : r.Lineal) (ht : t.shape?.isSome = true) :
    r.isRecord t = false :=
  isRecord_of_shape? (hr.fresh t ht) ht

/-- The bases of a type are records of the registry. -/
theorem Lineal.derives_cases (hr : r.Lineal) (hs : r.holds s = true) (h : r.Derives s t) :
    s = t ∨ r.holds t = true ∧ r.isRecord t = true := by
  induction h with
  | refl => exact .inl rfl
  | tail _ hbase ih =>
      rcases ih with rfl | ⟨ht, -⟩
      · exact .inr (hr.bases _ _ hs hbase)
      · exact .inr (hr.bases _ _ ht hbase)

theorem mem_heldRecords (hfresh : r.Unaltered) (hs : r.holds s = true)
    (hrecord : r.isRecord s = true) : s ∈ r.heldRecords := by
  unfold heldRecords
  rw [List.mem_append, List.mem_map, List.mem_map]
  rcases s.shape_cases with ⟨id, rfl⟩ | ⟨g, args, rfl⟩ | ⟨shape, rfl⟩
  · exact .inl ⟨id, by simpa [holds] using hs, rfl⟩
  · right
    simp only [holds, Bool.and_eq_true, instance?, Option.isSome_map, List.find?_isSome] at hs
    obtain ⟨⟨entry, hentry, hkey⟩, -⟩ := hs
    exact ⟨entry, hentry, by simpa using hkey⟩
  · rw [isRecord_of_shape? (hfresh _ (by simp)) (by simp)] at hrecord
    cases hrecord

/-- Base chains do not return to a record if a number goes down along them. -/
theorem lineal_of_rank (hfresh : r.Unaltered) (rank : Ty → Nat)
    (hrank : ∀ s ∈ r.heldRecords, ∀ b ∈ r.base? s,
      r.holds b = true ∧ r.isRecord b = true ∧ rank b < rank s) : r.Lineal := by
  have hbase : ∀ s b, r.holds s = true → r.base? s = some b →
      r.holds b = true ∧ r.isRecord b = true ∧ rank b < rank s := fun s b hs hb =>
    hrank s (mem_heldRecords hfresh hs (isRecord_of_base? hb)) b hb
  refine ⟨hfresh, fun s b hs hb => ⟨(hbase s b hs hb).1, (hbase s b hs hb).2.1⟩, ?_⟩
  intro s hs hcycle
  have hdown : ∀ t, Relation.TransGen (fun a b => r.base? a = some b) s t →
      r.holds t = true ∧ rank t < rank s := by
    intro t h
    induction h with
    | single hb => exact ⟨(hbase _ _ hs hb).1, (hbase _ _ hs hb).2.2⟩
    | tail _ hb ih => exact ⟨(hbase _ _ ih.1 hb).1, Nat.lt_trans (hbase _ _ ih.1 hb).2.2 ih.2⟩
  exact Nat.lt_irrefl _ (hdown s hcycle).2

/-- A walk that has left some records behind comes to every base of the one it is at: it never
returns to a record, so that those ahead are no more than those not visited yet. -/
theorem Lineal.descendsWithin (hr : r.Lineal) : ∀ {n : Nat} {s : Ty} {visited : List Ty},
    r.holds s = true → visited.Nodup → visited ⊆ r.heldRecords →
      (∀ v ∈ visited, Relation.TransGen (fun a b => r.base? a = some b) v s) →
        r.heldRecords.length ≤ visited.length + n → r.Derives s t →
          r.descendsWithin t n s = true := by
  intro n
  induction n with
  | zero =>
      intro s visited hs hnodup hsub hbehind hlen h
      rcases h.eq_or_isRecord with rfl | hrecord
      · exact r.descendsWithin_refl 0
      · have hnew : s ∉ visited := fun hmem => hr.acyclic s hs (hbehind s hmem)
        have hsub' : s :: visited ⊆ r.heldRecords :=
          List.cons_subset.mpr ⟨mem_heldRecords hr.fresh hs hrecord, hsub⟩
        have hmore := (List.subperm_of_subset (hnodup.cons hnew) hsub').length_le
        rw [List.length_cons] at hmore
        omega
  | succ n ih =>
      intro s visited hs hnodup hsub hbehind hlen h
      cases h using Relation.ReflTransGen.head_induction_on with
      | refl => exact r.descendsWithin_refl _
      | @head _ b hbase hrest =>
          have hnew : s ∉ visited := fun hmem => hr.acyclic s hs (hbehind s hmem)
          have hrecord := mem_heldRecords hr.fresh hs (isRecord_of_base? hbase)
          rw [Registry.descendsWithin, hbase, Bool.or_eq_true]
          right
          refine ih (hr.bases s b hs hbase).1 (hnodup.cons hnew)
            (List.cons_subset.mpr ⟨hrecord, hsub⟩) ?_ (by rw [List.length_cons]; omega) hrest
          intro v hv
          rcases List.mem_cons.mp hv with rfl | hv
          · exact .single hbase
          · exact (hbehind v hv).tail hbase

theorem heldRecords_length_le (r : Registry) (t : Ty) :
    r.heldRecords.length ≤ r.chainBound t := by
  have hpow : r.declarations.length ≤
      (t.size + r.baseWeight + 2) ^ (r.declarations.length + r.redefined.length + 1) :=
    calc r.declarations.length
      _ ≤ 2 ^ r.declarations.length := Nat.le_of_lt Nat.lt_two_pow_self
      _ ≤ (t.size + r.baseWeight + 2) ^ r.declarations.length :=
          Nat.pow_le_pow_left (by omega) _
      _ ≤ _ := Nat.pow_le_pow_right (by omega) (by omega)
  simp only [heldRecords, chainBound, List.length_append, List.length_map, List.length_range]
  exact Nat.add_le_add_right hpow _

/-- The walk along the bases of a type answers whether one of them is reached. -/
theorem Lineal.descendsFrom_iff (hr : r.Lineal) (hs : r.holds s = true) :
    r.descendsFrom s t = true ↔ r.Derives s t :=
  ⟨derives_of_descendsWithin, hr.descendsWithin hs .nil (List.nil_subset _) nofun
    (by simpa using r.heldRecords_length_le s)⟩

/-! ## §3  Widening -/

/-- The rules by which a value of the one type may stand for a value of the other. -/
inductive Widens (r : Registry) : Ty → Ty → Prop
  | refl {t : Ty} : Widens r t t
  | boxed {s : Ty} (hs : s ≠ .void) : Widens r s .object
  | lifted {u : Ty} (hvalue : r.isValueType u = true) (hplain : r.underlying? u = none) :
      Widens r u (.nullable u)
  | derived {s t : Ty} (ht : r.isRecord t = true) (h : r.Derives s t) : Widens r s t
  /-- Arrays, lists and the like as what they enumerate. -/
  | element {s e : Ty} (hs : r.element? s = some e) : Widens r s (.seq .enumerable e)
  /-- What they enumerate may be wider, as long as nothing has to be boxed or lifted for it. -/
  | elements {s a b : Ty} (hs : r.element? s = some a) (ha : r.isValueType a = false)
      (h : Widens r a b) : Widens r s (.seq .enumerable b)
  | returns {ps : List Ty} {a b : Ty} (h : Widens r a b) :
      Widens r (.func ps a) (.func ps b)

theorem Lineal.widens_of_extends? (hr : r.Lineal) (hs : r.holds s = true)
    (h : r.extends? s t = true) : r.Widens s t := by
  have hderives := derives_of_descendsWithin (Bool.and_eq_true _ _ |>.mp h).2
  rcases hr.derives_cases hs hderives with rfl | ⟨-, ht⟩
  · exact .refl
  · exact .derived ht hderives

theorem Lineal.widens_of_isAssignable (hr : r.Lineal) : ∀ {t s : Ty}, r.holds s = true →
    r.holds t = true → r.isAssignable s t = true → r.Widens s t
  | .object, s, hs, _, h => by
      have hfresh := hr.fresh .object rfl
      have hvoid := hr.fresh .void rfl
      simp only [isAssignable, hfresh, hvoid, Bool.or_eq_true, beq_iff_eq, Bool.false_eq_true,
        if_false, Bool.not_false, Bool.and_true, Bool.not_eq_true', beq_eq_false_iff_ne] at h
      rcases h with rfl | h
      · exact .refl
      · exact .boxed h
  | .nullable u, s, hs, ht, h => by
      obtain ⟨-, hvalue, hplain⟩ := holds_nullable_iff.mp ht
      simp only [isAssignable, Bool.or_eq_true, Bool.and_eq_true, beq_iff_eq] at h
      rcases h with (rfl | ⟨-, rfl⟩) | h
      · exact .refl
      · exact .lifted hvalue hplain
      · exact hr.widens_of_extends? hs h
  | .seq .enumerable e, s, hs, ht, h => by
      have hfresh := hr.fresh (.seq .enumerable e) rfl
      simp only [isAssignable, hfresh, Bool.or_eq_true, beq_iff_eq, Bool.false_eq_true,
        if_false] at h
      rcases h with rfl | h
      · exact .refl
      · split at h
        · rename_i a ha
          simp only [Bool.or_eq_true, Bool.and_eq_true, beq_iff_eq, Bool.not_eq_true'] at h
          rcases h with rfl | ⟨hvalue, h⟩
          · exact .element ha
          · exact .elements ha hvalue (hr.widens_of_isAssignable (holds_of_element? hs ha)
              (by simpa [holds] using ht) h)
        · exact hr.widens_of_extends? hs h
  | .func ps ret, s, hs, ht, h => by
      simp only [isAssignable, Bool.or_eq_true, beq_iff_eq] at h
      rcases h with rfl | h
      · exact .refl
      · split at h
        · rename_i sps sret heq
          split at heq
          · cases heq
          · subst heq
            simp only [Bool.and_eq_true, beq_iff_eq] at h
            obtain ⟨rfl, h⟩ := h
            simp only [holds, Bool.and_eq_true] at hs ht
            exact .returns (hr.widens_of_isAssignable hs.2 ht.2 h)
        · exact hr.widens_of_extends? hs h
  | .seq .list _, s, hs, _, h | .seq .queryable _, s, hs, _, h | .void, s, hs, _, h
  | .literal _, s, hs, _, h | .param _, s, hs, _, h | .declared _, s, hs, _, h
  | .inst _ _, s, hs, _, h | .anonymous _, s, hs, _, h | .array _, s, hs, _, h
  | .dictionary _ _, s, hs, _, h | .keyValue _ _, s, hs, _, h | .expression _, s, hs, _, h => by
      simp only [isAssignable, Bool.or_eq_true, beq_iff_eq] at h
      rcases h with rfl | h
      · exact .refl
      · exact hr.widens_of_extends? hs h

theorem Lineal.isAssignable_of_widens (hr : r.Lineal) (h : r.Widens s t) :
    r.holds s = true → r.isAssignable s t = true := by
  induction h with
  | refl => exact fun _ => r.isAssignable_refl _
  | boxed hs =>
      have hfresh := hr.fresh .object rfl
      simp [isAssignable, hfresh, hs]
  | @lifted u _ _ =>
      have hfresh := hr.fresh (.nullable u) rfl
      simp [isAssignable, hfresh]
  | derived ht h =>
      intro hs
      rcases h.eq_or_isRecord with rfl | hrecord
      · exact r.isAssignable_refl _
      · exact isAssignable_of_extends? (by simp [extends?, hrecord, (hr.descendsFrom_iff hs).mpr h])
  | @element s e ha =>
      have hfresh := hr.fresh (.seq .enumerable e) rfl
      simp [isAssignable, hfresh, ha]
  | @elements s a b ha hvalue _ ih =>
      intro hs
      have hfresh := hr.fresh (.seq .enumerable b) rfl
      simp [isAssignable, hfresh, ha, hvalue, ih (holds_of_element? hs ha)]
  | @returns ps a b _ ih =>
      intro hs
      have hsource := hr.fresh (.func ps a) rfl
      have htarget := hr.fresh (.func ps b) rfl
      simp only [holds, Bool.and_eq_true] at hs
      simp [isAssignable, hsource, htarget, ih hs.2]

theorem Lineal.isAssignable_iff_widens (hr : r.Lineal) (hs : r.holds s = true)
    (ht : r.holds t = true) : r.isAssignable s t = true ↔ r.Widens s t :=
  ⟨hr.widens_of_isAssignable hs ht, fun h => hr.isAssignable_of_widens h hs⟩

/-! ### What widens to a type -/

section Inversion

variable (hr : r.Lineal)

include hr

theorem Widens.to_record (h : r.Widens s t) (ht : r.isRecord t = true) : r.Derives s t := by
  cases h with
  | refl => exact .refl
  | derived _ h => exact h
  | _ =>
      rw [hr.isRecord_eq_false rfl] at ht
      cases ht

/-- To a value type only a value type widens, which is the same or the one underlying it. -/
theorem Widens.to_value (h : r.Widens s t) (ht : r.isValueType t = true) :
    s = t ∨ r.underlying? s = none ∧ r.underlying? t = some s := by
  cases h with
  | refl => exact .inl rfl
  | lifted _ hplain => exact .inr ⟨hplain, underlying?_nullable (hr.fresh _ rfl)⟩
  | derived hrecord _ =>
      rw [not_isValueType_of_record hrecord] at ht
      cases ht
  | _ => simp [isValueType, isEnum, variants?, declaration?] at ht

theorem Widens.to_sequence (h : r.Widens s t) (ht : r.element? t = some e) :
    s = t ∨ t = .seq .enumerable e ∧ ∃ a, r.element? s = some a ∧
      (a = e ∨ r.isValueType a = false ∧ r.Widens a e) := by
  have helement : ∀ {b}, r.element? (.seq .enumerable b) = some e → b = e := by
    intro b hb
    simpa [element?, hr.fresh (.seq .enumerable b) rfl] using hb
  cases h with
  | refl => exact .inl rfl
  | derived hrecord _ =>
      rw [element?_of_record hrecord] at ht
      cases ht
  | element hs =>
      obtain rfl := helement ht
      exact .inr ⟨rfl, _, hs, .inl rfl⟩
  | elements hs hvalue h =>
      obtain rfl := helement ht
      exact .inr ⟨rfl, _, hs, .inr ⟨hvalue, h⟩⟩
  | _ => simp [element?] at ht

theorem Widens.to_func {ps : List Ty} {ret : Ty} (h : r.Widens s (.func ps ret)) :
    ∃ sret, s = .func ps sret ∧ r.Widens sret ret := by
  cases h with
  | refl => exact ⟨_, rfl, .refl⟩
  | derived hrecord _ =>
      rw [hr.isRecord_eq_false rfl] at hrecord
      cases hrecord
  | returns h => exact ⟨_, rfl, h⟩

/-- Neither `Object` nor `Void` widens to another type. -/
theorem Widens.of_top (h : r.Widens s t) (hs : s = .object ∨ s = .void) : s = t := by
  have hrecord : r.isRecord s = false := by
    rcases hs with rfl | rfl <;> exact hr.isRecord_eq_false rfl
  cases h with
  | refl => rfl
  | boxed hvoid => exact hs.resolve_right hvoid
  | lifted hvalue _ =>
      rcases hs with rfl | rfl <;> simp [isValueType, isEnum, variants?, declaration?] at hvalue
  | derived _ h =>
      rcases h.eq_or_isRecord with heq | hrecord'
      · exact heq
      · rw [hrecord] at hrecord'
        cases hrecord'
  | element hs' | elements hs' _ _ => rcases hs with rfl | rfl <;> simp [element?] at hs'
  | returns _ => simp at hs

/-! ## §4  The order -/

theorem Widens.trans (h₁ : r.Widens s t) (h₂ : r.Widens t u) : r.Widens s u := by
  induction h₂ generalizing s with
  | refl => exact h₁
  | boxed ht =>
      refine .boxed ?_
      rintro rfl
      exact ht (h₁.of_top hr (.inr rfl)).symm
  | lifted hvalue hplain =>
      rcases h₁.to_value hr hvalue with rfl | ⟨-, hsome⟩
      · exact .lifted hvalue hplain
      · rw [hplain] at hsome
        cases hsome
  | derived hu h =>
      rcases h.eq_or_isRecord with rfl | ht
      · exact h₁
      · exact .derived hu ((h₁.to_record hr ht).trans h)
  | element ht =>
      rcases h₁.to_sequence hr ht with rfl | ⟨rfl, a, ha, rfl | ⟨hvalue, h⟩⟩
      · exact .element ht
      · exact .element ha
      · exact .elements ha hvalue h
  | elements ht hvalue h ih =>
      rcases h₁.to_sequence hr ht with rfl | ⟨rfl, a, ha, rfl | ⟨hvalue', h'⟩⟩
      · exact .elements ht hvalue h
      · exact .elements ha hvalue h
      · exact .elements ha hvalue' (ih h')
  | returns h ih =>
      obtain ⟨a, rfl, h'⟩ := h₁.to_func hr
      exact .returns (ih h')

theorem Widens.antisymm (h₁ : r.Widens s t) (hs : r.holds s = true) (h₂ : r.Widens t s) :
    s = t := by
  induction h₁ with
  | refl => rfl
  | boxed _ => exact (h₂.of_top hr (.inl rfl)).symm
  | lifted hvalue hplain =>
      rcases h₂.to_value hr hvalue with heq | ⟨-, hsome⟩
      · exact heq.symm
      · rw [hplain] at hsome
        cases hsome
  | derived ht h =>
      rcases h.eq_or_isRecord with heq | hrecord
      · exact heq
      · rcases Relation.reflTransGen_iff_eq_or_transGen.mp h with heq | hup
        · exact heq.symm
        · exact absurd (hup.trans_left (h₂.to_record hr hrecord)) (hr.acyclic _ hs)
  | element ha =>
      rcases h₂.to_sequence hr ha with heq | ⟨heq, -⟩
      · exact heq.symm
      · exact heq
  | @elements s a b ha _ _ ih =>
      have hb : r.element? (.seq .enumerable b) = some b := by
        simp [element?, hr.fresh (.seq .enumerable b) rfl]
      rcases h₂.to_sequence hr ha with heq | ⟨rfl, b', hb', hback⟩
      · exact heq.symm
      · obtain rfl := Option.some.inj (hb.symm.trans hb')
        rcases hback with rfl | ⟨-, hback⟩
        · rfl
        · rw [ih (holds_of_element? hs ha) hback]
  | returns _ ih =>
      obtain ⟨_, heq, hback⟩ := h₂.to_func hr
      obtain ⟨-, rfl⟩ := Ty.func.inj heq
      simp only [holds, Bool.and_eq_true] at hs
      rw [ih hs.2 hback]

end Inversion

/-- Assignability is a partial order on the types of a registry. -/
theorem isAssignable_isPartialOrder (hr : r.Lineal) :
    IsPartialOrder { t : Ty // r.holds t = true } fun s t => r.isAssignable s t = true where
  refl t := r.isAssignable_refl t
  trans s t u h h' := by
    rw [hr.isAssignable_iff_widens s.2 t.2] at h
    rw [hr.isAssignable_iff_widens t.2 u.2] at h'
    exact (hr.isAssignable_iff_widens s.2 u.2).mpr (h.trans hr h')
  antisymm s t h h' := by
    rw [hr.isAssignable_iff_widens s.2 t.2] at h
    rw [hr.isAssignable_iff_widens t.2 s.2] at h'
    exact Subtype.ext (h.antisymm hr s.2 h')

/-- Dogs are animals, and a crate of them is a box of them. -/
def kennel : Registry :=
  Registry.close { declarations := [
    .record "Animal" none [⟨"Name", .string⟩],
    .record "Dog" (some (.declared 0)) [],
    .generic "Box" 1 none [⟨"Content", .param 0⟩],
    .generic "Crate" 1 (some (.inst 2 [.param 0])) []] }
    [.inst 2 [.declared 1], .inst 3 [.declared 1]]

theorem isAssignable_isPartialOrder_kennel : kennel.Lineal ∧
    kennel.heldRecords = [.declared 0, .declared 1, .declared 2, .declared 3,
      .inst 2 [.declared 1], .inst 3 [.declared 1]] ∧
    IsPartialOrder { t : Ty // kennel.holds t = true } fun s t => kennel.isAssignable s t = true := by
  have hfresh : kennel.Unaltered := fun _ _ => rfl
  have hlineal : kennel.Lineal :=
    lineal_of_rank hfresh (kennel.heldRecords.idxOf ·) (by decide)
  exact ⟨hlineal, by decide, isAssignable_isPartialOrder hlineal⟩

end Registry

end Recast
