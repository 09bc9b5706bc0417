import Recast.Ty.Catalogue
import Recast.Ty.Instance

/-! # Types over the life of a registry

Types are compared in place of what they are built from, while the registry that
they are read with goes on changing: declarations are added and completed, records
are defined further, and instances of generic records are closed, some of them
before their generic record has members.  None of this touches the types that are
built from others.

- `Shape`, `TypeKind`, `Registry.kind?` — what a registry holds a type to be, from
  which what it answers about the type is read.
- `RegistryCall` — the calls that change a registry.
- `Registry.Sound`, `Registry.Extends` — what every call keeps, and how the
  registries before and after it are related.
- `Registry.internsExactly` — equal parts and no others make equal types, over every
  history of calls.
-/

namespace Recast

/-! ## §1  Kinds -/

/-- A type that is built rather than declared, with its parts. -/
inductive Shape where
  | object
  | void
  | literal (l : Literal)
  | nullable (t : Ty)
  | param (i : Nat)
  | anonymous (members : List Member)
  | array (element : Ty)
  | seq (kind : SeqKind) (element : Ty)
  | dictionary (key value : Ty)
  | keyValue (key value : Ty)
  | func (params : List Ty) (ret : Ty)
  | expression (delegate : Ty)
  deriving DecidableEq

namespace Shape

def ty : Shape → Ty
  | object => .object
  | void => .void
  | literal l => .literal l
  | nullable t => .nullable t
  | param i => .param i
  | anonymous ms => .anonymous ms
  | array e => .array e
  | seq kind e => .seq kind e
  | dictionary k v => .dictionary k v
  | keyValue k v => .keyValue k v
  | func ps ret => .func ps ret
  | expression d => .expression d

def parts : Shape → List Ty
  | object | void | literal _ | param _ => []
  | nullable t | array t | seq _ t | expression t => [t]
  | anonymous ms => ms.map (·.ty)
  | dictionary k v | keyValue k v => [k, v]
  | func ps ret => ps ++ [ret]

theorem ty_injective : Function.Injective ty := by
  intro s s' h
  cases s <;> cases s' <;> simp_all [ty]

end Shape

/-- The shape of a type that is not declared. -/
def Ty.shape? : Ty → Option Shape
  | .object => some .object
  | .void => some .void
  | .literal l => some (.literal l)
  | .nullable t => some (.nullable t)
  | .param i => some (.param i)
  | .anonymous ms => some (.anonymous ms)
  | .array e => some (.array e)
  | .seq kind e => some (.seq kind e)
  | .dictionary k v => some (.dictionary k v)
  | .keyValue k v => some (.keyValue k v)
  | .func ps ret => some (.func ps ret)
  | .expression d => some (.expression d)
  | .declared _ | .inst _ _ => none

@[simp] theorem Shape.shape?_ty (s : Shape) : s.ty.shape? = some s := by cases s <;> rfl

theorem Ty.shape?_eq_some {t : Ty} {s : Shape} : t.shape? = some s ↔ t = s.ty := by
  constructor
  · intro h
    cases t <;> simp only [shape?, Option.some.injEq, reduceCtorEq] at h <;> subst h <;> rfl
  · rintro rfl
    exact s.shape?_ty

/-- Every type is declared, an instance or built as some shape. -/
theorem Ty.shape_cases (t : Ty) :
    (∃ id, t = .declared id) ∨ (∃ generic args, t = .inst generic args) ∨ ∃ s : Shape, t = s.ty := by
  cases h : t.shape? with
  | some s => exact .inr (.inr ⟨s, shape?_eq_some.mp h⟩)
  | none =>
      cases t with
      | declared id => exact .inl ⟨id, rfl⟩
      | inst generic args => exact .inr (.inl ⟨generic, args, rfl⟩)
      | _ => cases h

inductive TypeKind where
  | built (s : Shape)
  | enumeration (name : String) (variants : List String)
  | record (d : RecordInfo)
  | generic (name : String) (params : Nat) (base : Option Ty) (members : List Member)

def Declaration.kind : Declaration → TypeKind
  | enumeration name variants => .enumeration name variants
  | record name base members => .record ⟨name, base, members, none⟩
  | generic name params base members => .generic name params base members

namespace Registry

section Kinds

variable (r : Registry)

/-- The kind of a type that has not been redefined. -/
def declaredKind? (t : Ty) : Option TypeKind :=
  match t with
  | .declared id => r.declarations[id]?.map (·.kind)
  | .inst generic args => ((r.instance? t).or (r.unfolded? generic args)).map .record
  | t => t.shape?.map .built

/-- What the registry holds a type to be, if it knows the type. -/
def kind? (t : Ty) : Option TypeKind := ((r.redefinition? t).map .record).or (r.declaredKind? t)

/-- The type exists in the registry. -/
def Knows (t : Ty) : Prop := (r.kind? t).isSome = true

instance (t : Ty) : Decidable (r.Knows t) := inferInstanceAs (Decidable (_ = _))

end Kinds

variable {r r' r'' : Registry}

theorem isRedefined_eq (t : Ty) : r.isRedefined t = (r.redefinition? t).isSome := by
  unfold isRedefined redefinition?
  rw [Option.isSome_map, List.isSome_find?]

theorem isRedefined_eq_false {t : Ty} : r.isRedefined t = false ↔ r.redefinition? t = none := by
  rw [isRedefined_eq, Option.isSome_eq_false_iff, Option.isNone_iff_eq_none]

/-- A type reads as built from its parts as long as it is not redefined. -/
theorem kind?_eq_built {t : Ty} {s : Shape} :
    r.kind? t = some (.built s) ↔ t = s.ty ∧ r.isRedefined t = false := by
  rw [isRedefined_eq_false, ← Ty.shape?_eq_some]
  unfold kind?
  cases hred : r.redefinition? t with
  | some d => simp
  | none =>
      cases t <;> simp [declaredKind?, Ty.shape?]
      intro d _
      cases d <;> simp [Declaration.kind]

theorem kind?_record {t : Ty} {d : RecordInfo} :
    r.kind? t = some (.record d) ↔ r.record? t = some d := by
  unfold kind? record?
  cases hred : r.redefinition? t with
  | some d => simp
  | none =>
      cases t with
      | declared id =>
          cases hd : r.declarations[id]? with
          | none => simp [declaredKind?, hd]
          | some d => cases d <;> simp [declaredKind?, hd, Declaration.kind]
      | inst g args => simp [declaredKind?]
      | _ => simp [declaredKind?, Ty.shape?]

theorem declaration?_declared {t : Ty} {d : Declaration} :
    r.declaration? t = some d ↔
      ∃ id, t = .declared id ∧ r.isRedefined t = false ∧ r.declarations[id]? = some d := by
  unfold declaration?
  cases t <;> simp

/-- Enumerations and open generic records are what they are declared to be. -/
theorem kind?_declaration {t : Ty} {d : Declaration} (hd : ∀ info, d.kind ≠ .record info) :
    r.kind? t = some d.kind ↔ r.declaration? t = some d := by
  rw [declaration?_declared, isRedefined_eq_false]
  unfold kind?
  cases hred : r.redefinition? t with
  | some info => simpa using fun h => hd info h.symm
  | none =>
      cases t with
      | declared id =>
          cases hd' : r.declarations[id]? with
          | none => simp [declaredKind?, hd']
          | some d' => cases d <;> cases d' <;> simp_all [declaredKind?, Declaration.kind]
      | inst g args => simpa [declaredKind?] using fun info _ h => hd info h.symm
      | _ => cases d <;> simp [declaredKind?, Ty.shape?, Declaration.kind]

theorem kind?_enumeration {t : Ty} {name : String} {variants : List String} :
    r.kind? t = some (.enumeration name variants) ↔
      r.declaration? t = some (.enumeration name variants) :=
  kind?_declaration (d := .enumeration name variants) fun _ => nofun

theorem kind?_generic {t : Ty} {name : String} {params : Nat} {base : Option Ty}
    {members : List Member} :
    r.kind? t = some (.generic name params base members) ↔
      r.declaration? t = some (.generic name params base members) :=
  kind?_declaration (d := .generic name params base members) fun _ => nofun

/-! ### What is read off a kind -/

theorem variants?_kind {t : Ty} {variants : List String} :
    r.variants? t = some variants ↔ ∃ name, r.kind? t = some (.enumeration name variants) := by
  simp only [kind?_enumeration]
  unfold variants?
  cases h : r.declaration? t with
  | none => simp
  | some d => cases d <;> simp

theorem underlying?_kind {t u : Ty} :
    r.underlying? t = some u ↔ r.kind? t = some (.built (.nullable u)) := by
  rw [kind?_eq_built]
  unfold underlying?
  cases t <;> simp [Shape.ty, and_comm]

theorem element?_kind {t e : Ty} :
    r.element? t = some e ↔
      r.kind? t = some (.built (.array e)) ∨ (∃ kind, r.kind? t = some (.built (.seq kind e))) ∨
        ∃ k v, r.kind? t = some (.built (.dictionary k v)) ∧ e = .keyValue k v := by
  simp only [kind?_eq_built]
  unfold element?
  cases hred : r.isRedefined t with
  | true => simp
  | false =>
      cases t <;> simp [Shape.ty]
      grind

theorem signature?_kind {t ret : Ty} {ps : List Ty} :
    r.signature? t = some (ps, ret) ↔
      r.kind? t = some (.built (.func ps ret)) ∨
        ∃ d, r.kind? t = some (.built (.expression d)) ∧ r.signature? d = some (ps, ret) := by
  simp only [kind?_eq_built]
  cases t <;> simp [signature?, Shape.ty]
  all_goals grind

theorem isAnonymous_kind {t : Ty} :
    r.isAnonymous t = true ↔ ∃ ms, r.kind? t = some (.built (.anonymous ms)) := by
  simp only [kind?_eq_built]
  cases t <;> simp [isAnonymous, Shape.ty]

theorem isValueType_kind {t : Ty} :
    r.isValueType t = true ↔
      (∃ l, l ≠ .string ∧ r.kind? t = some (.built (.literal l))) ∨
        (∃ u, r.kind? t = some (.built (.nullable u))) ∨
        (∃ k v, r.kind? t = some (.built (.keyValue k v))) ∨
        ∃ name variants, r.kind? t = some (.enumeration name variants) := by
  have henum : r.isEnum t = true ↔ ∃ name variants, r.kind? t = some (.enumeration name variants) := by
    unfold isEnum
    rw [Option.isSome_iff_exists, exists_comm]
    simp only [variants?_kind]
  rw [← henum]
  simp only [kind?_eq_built]
  unfold isValueType
  cases hred : r.isRedefined t with
  | true =>
      have hnot : r.isEnum t = false := by
        unfold isEnum variants? declaration?
        cases t <;> simp [hred]
      simp [hnot]
  | false => cases t <;> simp [Shape.ty, isEnum, variants?, declaration?]

theorem instantiate?_kind {t u : Ty} {args : List Ty} :
    r.instantiate? t args = some u ↔
      ∃ id name base members, t = .declared id ∧ u = .inst id args ∧
        r.kind? t = some (.generic name args.length base members) := by
  simp only [kind?_generic]
  unfold instantiate?
  constructor
  · intro h
    split at h
    · rename_i id name params base members hd
      split at h
      · rename_i hparams
        subst hparams
        exact ⟨id, name, base, members, rfl, (Option.some.inj h).symm, hd⟩
      · cases h
    · cases h
  · rintro ⟨id, name, base, members, rfl, rfl, hd⟩
    simp [hd]

/-! ## §2  Calls on a registry -/

end Registry

/-- What changes a registry.  Building a type that is no instance does not, and is no call. -/
inductive RegistryCall where
  /-- A new enumeration, record or open generic record. -/
  | declare (d : Declaration)
  /-- More members, or a base, for a record. -/
  | define (t : Ty) (base : Option Ty) (members : List Member)
  /-- The base and the members of an open generic record. -/
  | complete (t : Ty) (base : Option Ty) (members : List Member)
  | instantiate (definition : Ty) (args : List Ty)
  /-- Types that were built by putting in arguments, instances among them. -/
  | keep (ts : List Ty)

namespace RegistryCall

def run (r : Registry) : RegistryCall → Registry
  | declare d => (r.declare d).2
  | define t base members => r.define t base members
  | complete t base members => r.defineGeneric t base members
  | instantiate definition args => r.close (r.instantiate? definition args).toList
  | keep ts => r.close ts

/-- Only records are defined further. -/
def Allowed (r : Registry) : RegistryCall → Prop
  | define t _ _ => r.isRecord t = true
  | declare _ | complete _ _ _ | instantiate _ _ | keep _ => True

instance (r : Registry) : ∀ call : RegistryCall, Decidable (call.Allowed r)
  | define t _ _ => inferInstanceAs (Decidable (r.isRecord t = true))
  | declare _ | complete _ _ _ | instantiate _ _ | keep _ => instDecidableTrue

end RegistryCall

namespace Registry

def runAll (r : Registry) (calls : List RegistryCall) : Registry := calls.foldl RegistryCall.run r

def AllowsAll (r : Registry) : List RegistryCall → Prop
  | [] => True
  | call :: calls => call.Allowed r ∧ AllowsAll (call.run r) calls

instance decidableAllowsAll : ∀ (r : Registry) (calls : List RegistryCall), Decidable (r.AllowsAll calls)
  | _, [] => instDecidableTrue
  | r, call :: calls =>
    have := decidableAllowsAll (call.run r) calls
    inferInstanceAs (Decidable (call.Allowed r ∧ AllowsAll (call.run r) calls))

end Registry

/-! ## §3  What every call keeps -/

/-- A later reading of the same type: records are completed, all else stays. -/
def TypeKind.Continues : TypeKind → TypeKind → Prop
  | .built s, k => k = .built s
  | .enumeration name variants, k => k = .enumeration name variants
  | .record d, k => ∃ d', k = .record d' ∧ d'.origin = d.origin
  | .generic name params _ _, k => ∃ base members, k = .generic name params base members

theorem TypeKind.Continues.refl (k : TypeKind) : k.Continues k := by
  cases k with
  | built | enumeration => rfl
  | record d => exact ⟨d, rfl, rfl⟩
  | generic name params base members => exact ⟨base, members, rfl⟩

theorem TypeKind.Continues.trans {k k' k'' : TypeKind} (h : k.Continues k') (h' : k'.Continues k'') :
    k.Continues k'' := by
  cases k with
  | built | enumeration =>
      cases h
      exact h'
  | record d =>
      obtain ⟨d', rfl, hd'⟩ := h
      obtain ⟨d'', rfl, hd''⟩ := h'
      exact ⟨d'', rfl, hd''.trans hd'⟩
  | generic name params base members =>
      obtain ⟨base', members', rfl⟩ := h
      exact h'

/-- The kind says all there is to say: it is not one that gets completed. -/
def TypeKind.Complete : TypeKind → Prop
  | .built _ | .enumeration _ _ => True
  | .record _ | .generic _ _ _ _ => False

theorem TypeKind.Continues.complete_iff {k k' k₀ : TypeKind} (h : k.Continues k') (hk₀ : k₀.Complete) :
    k' = k₀ ↔ k = k₀ := by
  cases k with
  | built | enumeration =>
      cases h
      rfl
  | record d =>
      obtain ⟨d', rfl, -⟩ := h
      constructor <;> rintro rfl <;> exact hk₀.elim
  | generic =>
      obtain ⟨base, members, rfl⟩ := h
      constructor <;> rintro rfl <;> exact hk₀.elim

namespace Registry

/-- The record of an instance says what it closes. -/
def ClosesItself (entry : Ty × RecordInfo) : Prop :=
  ∃ generic args, entry.1 = .inst generic args ∧ entry.2.origin = some (generic, args)

/-- Nothing but instances is redefined or kept, and each entry is about itself. -/
structure Sound (r : Registry) : Prop where
  redefined : ∀ entry ∈ r.redefined, ClosesItself entry
  instances : ∀ entry ∈ r.instances, ClosesItself entry

/-- The second registry knows what the first one knows. -/
structure Extends (r r' : Registry) : Prop where
  declarations : ∀ (id : Nat) (d : Declaration), r.declarations[id]? = some d →
    ∃ d', r'.declarations[id]? = some d' ∧ d.kind.Continues d'.kind
  redefined : ∀ t, r.isRedefined t = true → r'.isRedefined t = true
  instances : ∀ t d, r.instance? t = some d → r'.instance? t = some d

/-- What a call does to any registry. -/
structure Keeps (r r' : Registry) : Prop where
  sound : r.Sound → r'.Sound
  extend : r.Extends r'

variable {r r' r'' : Registry}

theorem Keeps.refl (r : Registry) : r.Keeps r :=
  ⟨id, fun _ d hd => ⟨d, hd, .refl _⟩, fun _ => id, fun _ _ => id⟩

theorem Keeps.trans (h : r.Keeps r') (h' : r'.Keeps r'') : r.Keeps r'' := by
  refine ⟨h'.sound ∘ h.sound, fun id d hd => ?_, fun t ht => ?_, fun t d hd => ?_⟩
  · obtain ⟨d', hd', hk⟩ := h.extend.declarations id d hd
    obtain ⟨d'', hd'', hk'⟩ := h'.extend.declarations id d' hd'
    exact ⟨d'', hd'', hk.trans hk'⟩
  · exact h'.extend.redefined t (h.extend.redefined t ht)
  · exact h'.extend.instances t d (h.extend.instances t d hd)

theorem keeps_foldl {α : Type} {step : Registry → α → Registry}
    (hstep : ∀ (r : Registry) (a : α), r.Keeps (step r a)) :
    ∀ (r : Registry) (l : List α), r.Keeps (l.foldl step r)
  | r, [] => .refl r
  | r, a :: l => (hstep r a).trans (keeps_foldl hstep (step r a) l)

/-! ### Instances -/

theorem sound_unfolded? {generic : Nat} {args : List Ty} {d : RecordInfo}
    (h : r.unfolded? generic args = some d) : d.origin = some (generic, args) := by
  unfold unfolded? at h
  split at h
  · obtain rfl := Option.some.inj h
    rfl
  · cases h

/-- An instance is kept once; what it was closed as stays. -/
theorem keeps_instance {generic : Nat} {args : List Ty} {d : RecordInfo}
    (h : r.unfolded? generic args = some d) :
    r.Keeps { r with instances := r.instances ++ [(.inst generic args, d)] } where
  sound hr := by
    refine ⟨hr.redefined, fun entry hentry => ?_⟩
    rcases List.mem_append.mp hentry with hentry | hentry
    · exact hr.instances entry hentry
    · obtain rfl := List.mem_singleton.mp hentry
      exact ⟨generic, args, rfl, sound_unfolded? h⟩
  extend := by
    refine ⟨fun id d hd => ⟨d, hd, .refl _⟩, fun t ht => ht, fun t d' hd' => ?_⟩
    obtain ⟨entry, hentry, rfl⟩ := Option.map_eq_some_iff.mp hd'
    simp [instance?, List.find?_append, hentry]

theorem keeps_closeWithin : ∀ (n : Nat) (r : Registry) (t : Ty), r.Keeps (closeWithin n r t)
  | 0, r, _ => .refl r
  | n + 1, r, t => by
      cases t with
      | inst generic args =>
          rw [closeWithin]
          split
          · rename_i d _ hd
            exact (keeps_instance hd).trans (keeps_foldl (keeps_closeWithin n) _ _)
          · exact .refl r
      | _ => exact .refl r

theorem keeps_close (ts : List Ty) : r.Keeps (r.close ts) :=
  keeps_foldl (keeps_closeWithin _) _ _

/-! ### Declarations -/

theorem keeps_declare (d : Declaration) : r.Keeps (r.declare d).2 where
  sound hr := ⟨hr.redefined, hr.instances⟩
  extend := by
    refine ⟨fun id d' hd' => ⟨d', ?_, .refl _⟩, fun t ht => ht, fun t d' hd' => hd'⟩
    exact (List.getElem?_append_left (List.getElem?_eq_some_iff.mp hd').1).trans hd'

/-- A declaration is replaced by one that continues it. -/
theorem keeps_set {id : Nat} {d d' : Declaration} (hd : r.declarations[id]? = some d)
    (hk : d.kind.Continues d'.kind) :
    r.Keeps { r with declarations := r.declarations.set id d' } where
  sound hr := ⟨hr.redefined, hr.instances⟩
  extend := by
    refine ⟨fun id' e he => ?_, fun t ht => ht, fun t e he => he⟩
    rw [List.getElem?_set]
    by_cases hid : id = id'
    · subst hid
      obtain rfl := Option.some.inj (hd.symm.trans he)
      exact ⟨d', by simp [(List.getElem?_eq_some_iff.mp hd).1], hk⟩
    · exact ⟨e, by simp [hid, he], .refl _⟩

theorem keeps_defineGeneric (t : Ty) (base : Option Ty) (members : List Member) :
    r.Keeps (r.defineGeneric t base members) := by
  unfold defineGeneric
  split
  · split
    · rename_i hd
      exact keeps_set hd ⟨_, _, rfl⟩
    · exact .refl r
  · exact .refl r

theorem Sound.not_redefined {t : Ty} (hr : r.Sound) (ht : ∀ generic args, t ≠ .inst generic args) :
    r.redefinition? t = none := by
  rw [← isRedefined_eq_false]
  apply eq_false_of_ne_true
  intro hred
  obtain ⟨entry, hentry, heq⟩ := List.any_eq_true.mp hred
  obtain ⟨generic, args, hinst, -⟩ := hr.redefined entry hentry
  exact ht generic args ((beq_iff_eq.mp heq).symm.trans hinst)

/-- An instance is a record that closes what it is an instance of. -/
theorem Sound.origin {generic : Nat} {args : List Ty} {d : RecordInfo} (hr : r.Sound)
    (h : r.record? (.inst generic args) = some d) : d.origin = some (generic, args) := by
  have hentry : ∀ (entries : List (Ty × RecordInfo)), (∀ entry ∈ entries, ClosesItself entry) →
      (entries.find? (·.1 == .inst generic args)).map (·.2) = some d →
        d.origin = some (generic, args) := by
    intro entries hentries hfind
    obtain ⟨entry, hfound, rfl⟩ := Option.map_eq_some_iff.mp hfind
    obtain ⟨generic', args', hinst, horigin⟩ := hentries entry (List.mem_of_find?_eq_some hfound)
    have hkey : entry.1 = .inst generic args := by simpa using List.find?_some hfound
    obtain ⟨rfl, rfl⟩ := Ty.inst.inj (hinst.symm.trans hkey)
    exact horigin
  unfold record? at h
  cases hred : r.redefinition? (.inst generic args) with
  | some d' =>
      rw [hred] at h
      obtain rfl := Option.some.inj h
      exact hentry _ hr.redefined hred
  | none =>
      rw [hred] at h
      rcases Option.or_eq_some_iff.mp h with hkept | ⟨-, hunfolded⟩
      · exact hentry _ hr.instances hkept
      · exact sound_unfolded? hunfolded

theorem Sound.kind?_ty (hr : r.Sound) (s : Shape) : r.kind? s.ty = some (.built s) := by
  refine kind?_eq_built.mpr ⟨rfl, isRedefined_eq_false.mpr (hr.not_redefined fun generic args h => ?_)⟩
  cases s <;> cases h

theorem Sound.kind?_declared (hr : r.Sound) (id : Nat) :
    r.kind? (.declared id) = r.declarations[id]?.map (·.kind) := by
  have hred : r.redefinition? (.declared id) = none := hr.not_redefined fun _ _ => nofun
  unfold kind?
  rw [hred]
  rfl

/-- A record is one that is declared as such, or an instance. -/
theorem Sound.record_cases {t : Ty} {d : RecordInfo} (hr : r.Sound) (h : r.record? t = some d) :
    (∃ id name base members, t = .declared id ∧ r.declaration? t = some (.record name base members)) ∨
      ∃ generic args, t = .inst generic args ∧ d.origin = some (generic, args) := by
  have hkind := kind?_record.mpr h
  rcases t.shape_cases with ⟨id, rfl⟩ | ⟨generic, args, rfl⟩ | ⟨s, rfl⟩
  · left
    rw [hr.kind?_declared] at hkind
    obtain ⟨d', hd', hkind⟩ := Option.map_eq_some_iff.mp hkind
    cases d' with
    | record name base members =>
        have hred := isRedefined_eq_false.mpr (hr.not_redefined (t := .declared id) fun _ _ => nofun)
        exact ⟨id, name, base, members, rfl, declaration?_declared.mpr ⟨id, rfl, hred, hd'⟩⟩
    | _ => cases hkind
  · exact .inr ⟨generic, args, rfl, hr.origin h⟩
  · rw [hr.kind?_ty] at hkind
    cases hkind

theorem keeps_define {t : Ty} (ht : r.isRecord t = true) (base : Option Ty) (members : List Member) :
    r.Keeps (r.define t base members) := by
  unfold define
  dsimp only
  split
  · rename_i id name base' members' hd
    obtain ⟨id', hid, -, hd⟩ := declaration?_declared.mp hd
    obtain rfl := Ty.declared.inj hid
    exact keeps_set hd ⟨_, rfl, rfl⟩
  · rename_i t _ _ hdeclared
    constructor
    · intro hr
      refine ⟨fun entry hentry => ?_, hr.instances⟩
      rcases List.mem_cons.mp hentry with rfl | hentry
      · obtain ⟨d, hd⟩ := Option.isSome_iff_exists.mp ht
        rcases hr.record_cases hd with ⟨id, name, base', members', rfl, hd'⟩ | ⟨generic, args, rfl, horigin⟩
        · exact absurd hd' (hdeclared id name base' members' rfl)
        · exact ⟨generic, args, rfl, by rw [hd]; exact horigin⟩
      · exact hr.redefined entry (List.mem_filter.mp hentry).1
    · refine ⟨fun id d hd => ⟨d, hd, .refl _⟩, fun t' ht' => ?_, fun t' d hd => hd⟩
      obtain ⟨entry, hentry, heq⟩ := List.any_eq_true.mp ht'
      by_cases hsame : t' = t
      · simp [isRedefined, hsame]
      · refine List.any_eq_true.mpr ⟨entry, List.mem_cons_of_mem _ (List.mem_filter.mpr ⟨hentry, ?_⟩), heq⟩
        obtain rfl := beq_iff_eq.mp heq
        simpa using hsame

/-! ### Histories -/

theorem keeps_run {call : RegistryCall} (h : call.Allowed r) : r.Keeps (call.run r) := by
  cases call with
  | declare d => exact keeps_declare d
  | define t base members => exact keeps_define h base members
  | complete t base members => exact keeps_defineGeneric t base members
  | instantiate definition args => exact keeps_close _
  | keep ts => exact keeps_close ts

theorem keeps_runAll : ∀ {r : Registry} {calls : List RegistryCall}, r.AllowsAll calls →
    r.Keeps (r.runAll calls)
  | r, [], _ => .refl r
  | _, _ :: _, h => (keeps_run h.1).trans (keeps_runAll h.2)

theorem allowsAll_append : ∀ {r : Registry} {calls calls' : List RegistryCall},
    r.AllowsAll (calls ++ calls') ↔ r.AllowsAll calls ∧ (r.runAll calls).AllowsAll calls'
  | _, [], _ => (true_and _).to_iff.symm
  | _, _ :: _, _ => (and_congr_right fun _ => allowsAll_append).trans and_assoc.symm

/-! ## §4  Types stay what they are -/

theorem unfolded?_isSome {generic : Nat} {args : List Ty} :
    (r.unfolded? generic args).isSome = true ↔
      ∃ name params base members, r.declarations[generic]? = some (.generic name params base members) := by
  unfold unfolded?
  cases r.declarations[generic]? with
  | none => simp
  | some d => cases d <;> simp

theorem isRecord_inst {generic : Nat} {args : List Ty} :
    r.isRecord (.inst generic args) = true ↔
      r.isRedefined (.inst generic args) = true ∨ (r.instance? (.inst generic args)).isSome = true ∨
        (r.unfolded? generic args).isSome = true := by
  rw [isRedefined_eq]
  unfold isRecord record?
  cases r.redefinition? (.inst generic args) <;> simp

/-- An instance that is known stays known. -/
theorem Extends.isRecord_inst (h : r.Extends r') {generic : Nat} {args : List Ty}
    (hr : r.isRecord (.inst generic args) = true) : r'.isRecord (.inst generic args) = true := by
  rw [Registry.isRecord_inst] at hr ⊢
  rcases hr with hred | hkept | hunfolded
  · exact .inl (h.redefined _ hred)
  · obtain ⟨d, hd⟩ := Option.isSome_iff_exists.mp hkept
    exact .inr (.inl (by rw [h.instances _ _ hd]; rfl))
  · obtain ⟨name, params, base, members, hd⟩ := unfolded?_isSome.mp hunfolded
    obtain ⟨d', hd', base', members', hkind⟩ := h.declarations _ _ hd
    cases d' <;> cases hkind
    exact .inr (.inr (unfolded?_isSome.mpr ⟨name, params, base', members', hd'⟩))

/-- What is known of a type stays known of it, and its kind goes on. -/
theorem Extends.kind? (h : r.Extends r') (hr : r.Sound) (hr' : r'.Sound) {t : Ty} {k : TypeKind}
    (hk : r.kind? t = some k) : ∃ k', r'.kind? t = some k' ∧ k.Continues k' := by
  rcases t.shape_cases with ⟨id, rfl⟩ | ⟨generic, args, rfl⟩ | ⟨s, rfl⟩
  · rw [hr.kind?_declared] at hk
    obtain ⟨d, hd, rfl⟩ := Option.map_eq_some_iff.mp hk
    obtain ⟨d', hd', hcont⟩ := h.declarations id d hd
    exact ⟨d'.kind, by rw [hr'.kind?_declared, hd']; rfl, hcont⟩
  · have hrecord : ∃ d, k = .record d := by
      unfold Registry.kind? at hk
      rcases Option.or_eq_some_iff.mp hk with hk | ⟨-, hk⟩ <;>
        exact (Option.map_eq_some_iff.mp hk).imp fun _ hd => hd.2.symm
    obtain ⟨d, rfl⟩ := hrecord
    have hd := kind?_record.mp hk
    have hknown := h.isRecord_inst (by rw [isRecord, hd]; rfl)
    obtain ⟨d', hd'⟩ := Option.isSome_iff_exists.mp hknown
    exact ⟨.record d', kind?_record.mpr hd', d', rfl, (hr'.origin hd').trans (hr.origin hd).symm⟩
  · rw [hr.kind?_ty] at hk
    obtain rfl := Option.some.inj hk
    exact ⟨.built s, hr'.kind?_ty s, rfl⟩

theorem Extends.kind?_iff (h : r.Extends r') (hr : r.Sound) (hr' : r'.Sound) {t : Ty}
    (ht : r.Knows t) {k : TypeKind} (hk : k.Complete) :
    r'.kind? t = some k ↔ r.kind? t = some k := by
  obtain ⟨k₁, hk₁⟩ := Option.isSome_iff_exists.mp ht
  obtain ⟨k₂, hk₂, hcont⟩ := h.kind? hr hr' hk₁
  rw [hk₁, hk₂, Option.some.injEq, Option.some.injEq]
  exact hcont.complete_iff hk

/-- What is a value type stays one, and what is a reference type stays one. -/
theorem Extends.isValueType_eq (h : r.Extends r') (hr : r.Sound) (hr' : r'.Sound) {t : Ty}
    (ht : r.Knows t) : r'.isValueType t = r.isValueType t := by
  have hbuilt : ∀ s, r'.kind? t = some (.built s) ↔ r.kind? t = some (.built s) :=
    fun s => h.kind?_iff hr hr' ht trivial
  have henum : ∀ name variants, r'.kind? t = some (.enumeration name variants) ↔
      r.kind? t = some (.enumeration name variants) :=
    fun name variants => h.kind?_iff hr hr' ht trivial
  rw [Bool.eq_iff_iff, isValueType_kind, isValueType_kind]
  simp only [hbuilt, henum]

theorem Extends.underlying?_eq (h : r.Extends r') (hr : r.Sound) (hr' : r'.Sound) {t : Ty}
    (ht : r.Knows t) : r'.underlying? t = r.underlying? t := by
  ext u
  rw [underlying?_kind, underlying?_kind]
  exact h.kind?_iff hr hr' ht trivial

theorem Extends.nullable_eq (h : r.Extends r') (hr : r.Sound) (hr' : r'.Sound) {t : Ty}
    (ht : r.Knows t) : r'.nullable t = r.nullable t := by
  unfold nullable
  rw [h.isValueType_eq hr hr' ht, h.underlying?_eq hr hr' ht]

/-! ## §5  Equal parts, equal types -/

/-- The type built from the parts; `Nullable<>` is not put around a reference type or a nullable
one. -/
def build (r : Registry) : Shape → Ty
  | .nullable t => r.nullable t
  | s => s.ty

/-- The type is no value type, or it is nullable already. -/
def TakesNull (r : Registry) (t : Ty) : Prop :=
  r.isValueType t = false ∨ (r.underlying? t).isSome = true

/-- The shape is `Nullable<>` of a type that takes null as it is. -/
def Collapses (r : Registry) (s : Shape) : Prop := ∃ t, s = .nullable t ∧ r.TakesNull t

theorem nullable_eq_self {t : Ty} (h : r.TakesNull t) : r.nullable t = t := by
  unfold nullable
  rcases h with h | h
  · simp [h]
  · simp [Option.isSome_iff_ne_none.mp h]

theorem build_eq_ty {s : Shape} (h : ¬ r.Collapses s) : r.build s = s.ty := by
  cases s with
  | nullable t =>
      have ht : ¬ r.TakesNull t := fun ht => h ⟨t, rfl, ht⟩
      unfold TakesNull at ht
      show r.nullable t = .nullable t
      simp_all [nullable]
  | _ => rfl

/-- Of types read with two registries, one earlier than the other: they are the same exactly if they
are built from the same parts. -/
structure InternsExactly (r r' : Registry) : Prop where
  build_eq_iff : ∀ s s', ¬ r.Collapses s → ¬ r'.Collapses s' → (r'.build s' = r.build s ↔ s' = s)
  /-- A shape that collapses goes on to do so, and one that does not never will. -/
  build_same : ∀ s, (∀ t ∈ s.parts, r.Knows t) → r'.build s = r.build s
  /-- `Nullable<>` of a reference type or a nullable type is that type. -/
  nullable_self : ∀ t, r.Knows t → r.TakesNull t → r.nullable t = t ∧ r'.nullable t = t
  instantiate_eq_iff : ∀ definition args t, r.instantiate? definition args = some t →
    ∀ definition' args', r'.instantiate? definition' args' = some t ↔
      definition' = definition ∧ args' = args
  /-- An instance is a record of its own that says what it closes. -/
  instantiate_origin : ∀ definition args t, r.instantiate? definition args = some t →
    ∃ id d, definition = .declared id ∧ r'.kind? t = some (.record d) ∧ d.origin = some (id, args)
  /-- A type that is built is of the kind it was built as from then on. -/
  kind_build : ∀ s, ¬ r.Collapses s → r'.kind? (r.build s) = some (.built s)
  kind_same : ∀ t s, r.kind? t = some (.built s) → r'.kind? t = some (.built s)
  /-- No two types are of one built kind. -/
  kind_unique : ∀ t t' s, r.kind? t = some (.built s) → r'.kind? t' = some (.built s) → t' = t

theorem Keeps.interning (h : r.Keeps r') (hr : r.Sound) : r.InternsExactly r' := by
  have hr' := h.sound hr
  have hcont := fun {t : Ty} {k : TypeKind} => h.extend.kind? (t := t) (k := k) hr hr'
  have hinst : ∀ {definition t : Ty} {args : List Ty}, r.instantiate? definition args = some t →
      r'.instantiate? definition args = some t := by
    intro definition t args ht
    obtain ⟨id, name, base, members, rfl, rfl, hk⟩ := instantiate?_kind.mp ht
    obtain ⟨k', hk', base', members', rfl⟩ := hcont hk
    exact instantiate?_kind.mpr ⟨id, name, base', members', rfl, rfl, hk'⟩
  constructor
  case build_eq_iff =>
    intro s s' hs hs'
    rw [build_eq_ty hs, build_eq_ty hs', Shape.ty_injective.eq_iff]
  case build_same =>
    intro s hs
    cases s with
    | nullable t => exact h.extend.nullable_eq hr hr' (hs t List.mem_cons_self)
    | _ => rfl
  case nullable_self =>
    intro t ht hnull
    have hself := nullable_eq_self hnull
    exact ⟨hself, (h.extend.nullable_eq hr hr' ht).trans hself⟩
  case instantiate_eq_iff =>
    intro definition args t ht definition' args'
    constructor
    · intro ht'
      obtain ⟨id, _, _, _, rfl, rfl, -⟩ := instantiate?_kind.mp ht
      obtain ⟨id', _, _, _, rfl, hsame, -⟩ := instantiate?_kind.mp ht'
      obtain ⟨rfl, rfl⟩ := Ty.inst.inj hsame
      exact ⟨rfl, rfl⟩
    · rintro ⟨rfl, rfl⟩
      exact hinst ht
  case instantiate_origin =>
    intro definition args t ht
    obtain ⟨id, name, base, members, rfl, rfl, hk⟩ := instantiate?_kind.mp (hinst ht)
    obtain ⟨id', hid, -, hd⟩ := declaration?_declared.mp (kind?_generic.mp hk)
    obtain rfl := Ty.declared.inj hid
    have hrecord : r'.isRecord (.inst id args) = true :=
      isRecord_inst.mpr (.inr (.inr (unfolded?_isSome.mpr ⟨_, _, _, _, hd⟩)))
    obtain ⟨d, hd⟩ := Option.isSome_iff_exists.mp hrecord
    exact ⟨id, d, rfl, kind?_record.mpr hd, hr'.origin hd⟩
  case kind_build =>
    intro s hs
    rw [build_eq_ty hs]
    exact hr'.kind?_ty s
  case kind_same =>
    intro t s hk
    obtain ⟨k', hk', rfl⟩ := hcont hk
    exact hk'
  case kind_unique =>
    intro t t' s hk hk'
    rw [(kind?_eq_built.mp hk).1, (kind?_eq_built.mp hk').1]

namespace Nodes

def status : Ty := .declared 0

def node : Ty := .declared 1

def numbers : Ty := .inst 1 [.int32]

/-- `Node<T>` mentions itself, and is closed over numbers. -/
def opened : List RegistryCall := [
  .declare (.enumeration "Status" ["Open", "Done"]),
  .declare (.generic "Node" 1 none []),
  .complete node none [⟨"Value", .param 0⟩, ⟨"Next", .inst 1 [.param 0]⟩],
  .instantiate node [.int32]]

/-- A record is added, the instance gets a member of its own, and the node is closed once more. -/
def continued : List RegistryCall := [
  .declare (.record "Order" none []),
  .define (.declared 2) none [⟨"Status", .nullable status⟩],
  .define numbers none [⟨"Order", .declared 2⟩],
  .instantiate node [.nullable status],
  .keep [.inst 1 [.declared 2]]]

end Nodes

end Registry

end Recast
