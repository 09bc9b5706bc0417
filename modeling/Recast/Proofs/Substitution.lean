import Recast.Proofs.Assignability

/-! # Arguments put in one after the other

Putting arguments into a type, and then arguments into what comes of it, is putting in
the first arguments with the second ones already in them.  `Nullable<>` stays where it is,
because what it is put around remains a value type, and an instance goes on closing the
same generic record.  What is redefined takes no arguments any more, so that the law needs
every type that is built to be what it is built as.

- `Ty.paramsBelow` — the type mentions only the first parameters.
- `Registry.substitute_substitute` — the law in one registry.
- `Registry.substitute_close` — instances that are closed meanwhile make no difference.
- `Registry.substitute_composes` — both together, for types and for instances.
-/

namespace Recast

namespace Ty

mutual

/-- Every generic parameter that the type mentions has a position below `n`. -/
def paramsBelow (n : Nat) : Ty → Bool
  | .param i => decide (i < n)
  | .inst _ ts => paramsBelowAll n ts
  | .nullable u | .array u | .seq _ u | .expression u => paramsBelow n u
  | .dictionary k v | .keyValue k v => paramsBelow n k && paramsBelow n v
  | .func ps ret => paramsBelowAll n ps && paramsBelow n ret
  | .anonymous ms => paramsBelowMembers n ms
  | .object | .void | .literal _ | .declared _ => true

def paramsBelowAll (n : Nat) : List Ty → Bool
  | [] => true
  | t :: ts => paramsBelow n t && paramsBelowAll n ts

def paramsBelowMembers (n : Nat) : List Member → Bool
  | [] => true
  | ⟨_, t⟩ :: ms => paramsBelow n t && paramsBelowMembers n ms

end

end Ty

namespace Registry

variable {r r' : Registry} {a b : List Ty} {t u : Ty}

/-! ## §1  Instances -/

/-- How many arguments an open generic record takes. -/
def arity? (r : Registry) (g : Nat) : Option Nat :=
  match r.declaration? (.declared g) with
  | some (.generic _ params _ _) => some params
  | _ => none

theorem instantiate?_declared (r : Registry) (g : Nat) (args : List Ty) :
    r.instantiate? (.declared g) args =
      if r.arity? g = some args.length then some (.inst g args) else none := by
  unfold instantiate? arity?
  cases r.declaration? (.declared g) with
  | none => simp
  | some d => cases d <;> simp

theorem substituteAll_eq_map (a ts : List Ty) : r.substituteAll a ts = ts.map (r.substitute a) := by
  induction ts with
  | nil => simp [substituteAll]
  | cons t ts ih => simp [substituteAll, ih]

/-- An instance goes on closing its generic record, over its arguments with the others put in. -/
theorem substitute_inst (r : Registry) (a : List Ty) (g : Nat) (ts : List Ty) :
    r.substitute a (.inst g ts) =
      .inst g (if r.arity? g = some ts.length then ts.map (r.substitute a) else ts) := by
  rw [substitute, instantiate?_declared, substituteAll_eq_map, List.length_map]
  split <;> rfl

/-! ## §2  One after the other -/

section Parts

variable (hr : r.Unaltered) (a : List Ty)

include hr

theorem Unaltered.substitute_array (u : Ty) :
    r.substitute a (.array u) = .array (r.substitute a u) := by
  simp [substitute, hr (.array u) rfl]

theorem Unaltered.substitute_seq (kind : SeqKind) (u : Ty) :
    r.substitute a (.seq kind u) = .seq kind (r.substitute a u) := by
  simp [substitute, hr (.seq kind u) rfl]

theorem Unaltered.substitute_expression (u : Ty) :
    r.substitute a (.expression u) = .expression (r.substitute a u) := by
  simp [substitute, hr (.expression u) rfl]

theorem Unaltered.substitute_dictionary (k v : Ty) :
    r.substitute a (.dictionary k v) = .dictionary (r.substitute a k) (r.substitute a v) := by
  simp [substitute, hr (.dictionary k v) rfl]

theorem Unaltered.substitute_keyValue (k v : Ty) :
    r.substitute a (.keyValue k v) = .keyValue (r.substitute a k) (r.substitute a v) := by
  simp [substitute, hr (.keyValue k v) rfl]

theorem Unaltered.substitute_func (ps : List Ty) (ret : Ty) :
    r.substitute a (.func ps ret) = .func (ps.map (r.substitute a)) (r.substitute a ret) := by
  simp [substitute, hr (.func ps ret) rfl, substituteAll_eq_map]

theorem Unaltered.substitute_anonymous (ms : List Member) :
    r.substitute a (.anonymous ms) = .anonymous (r.substituteMembers a ms) := by
  simp [substitute, hr (.anonymous ms) rfl]

end Parts

/-- A value type that is not nullable remains one with arguments put in. -/
theorem Unaltered.valueType_substitute (hr : r.Unaltered) (hvalue : r.isValueType u = true)
    (hplain : r.underlying? u = none) (a : List Ty) :
    r.isValueType (r.substitute a u) = true ∧ r.underlying? (r.substitute a u) = none := by
  cases u with
  | nullable u => simp [underlying?, hr (.nullable u) rfl] at hplain
  | keyValue k v =>
      simp [hr.substitute_keyValue, isValueType, underlying?, hr (.keyValue _ _) rfl]
  | literal l => exact ⟨hvalue, rfl⟩
  | declared id => exact ⟨hvalue, rfl⟩
  | _ => simp [isValueType, isEnum, variants?, declaration?] at hvalue

/-- `Nullable<>` stays where it is. -/
theorem Unaltered.substitute_nullable (hr : r.Unaltered) (h : r.holds (.nullable u) = true)
    (a : List Ty) : r.substitute a (.nullable u) = .nullable (r.substitute a u) := by
  obtain ⟨-, hvalue, hplain⟩ := holds_nullable_iff.mp h
  have hstays := hr.valueType_substitute hvalue hplain a
  simp [substitute, hr (.nullable u) rfl, nullable, hstays]

mutual

/-- Arguments put in one after the other. -/
theorem Unaltered.substitute_substitute (hr : r.Unaltered) (a b : List Ty) : ∀ {t : Ty},
    r.holds t = true → t.paramsBelow a.length = true →
      r.substitute b (r.substitute a t) = r.substitute (a.map (r.substitute b)) t
  | .param i, _, hbelow => by
      have hi : i < a.length := by simpa [Ty.paramsBelow] using hbelow
      simp [substitute, hr (.param i) rfl, hi]
  | .nullable u, hholds, hbelow => by
      have ih := hr.substitute_substitute a b (holds_nullable_iff.mp hholds).1
        (by simpa [Ty.paramsBelow] using hbelow)
      calc r.substitute b (r.substitute a (.nullable u))
        _ = r.substitute b (.nullable (r.substitute a u)) := by
            rw [hr.substitute_nullable hholds]
        _ = r.nullable (r.substitute b (r.substitute a u)) := by
            rw [substitute, hr (.nullable _) rfl]
            rfl
        _ = r.nullable (r.substitute (a.map (r.substitute b)) u) := by rw [ih]
        _ = r.substitute (a.map (r.substitute b)) (.nullable u) := by
            rw [substitute, hr (.nullable u) rfl]
            rfl
  | .inst g ts, hholds, hbelow => by
      simp only [holds, Bool.and_eq_true] at hholds
      have ih := hr.map_substitute_substitute a b hholds.2 hbelow
      simp only [substitute_inst]
      split <;> simp_all
  | .array u, hholds, hbelow => by
      simp only [hr.substitute_array, hr.substitute_substitute a b (t := u) hholds hbelow]
  | .seq kind u, hholds, hbelow => by
      simp only [hr.substitute_seq, hr.substitute_substitute a b (t := u) hholds hbelow]
  | .expression u, hholds, hbelow => by
      simp only [hr.substitute_expression, hr.substitute_substitute a b (t := u) hholds hbelow]
  | .dictionary k v, hholds, hbelow => by
      simp only [holds, Ty.paramsBelow, Bool.and_eq_true] at hholds hbelow
      simp only [hr.substitute_dictionary, hr.substitute_substitute a b hholds.1 hbelow.1,
        hr.substitute_substitute a b hholds.2 hbelow.2]
  | .keyValue k v, hholds, hbelow => by
      simp only [holds, Ty.paramsBelow, Bool.and_eq_true] at hholds hbelow
      simp only [hr.substitute_keyValue, hr.substitute_substitute a b hholds.1 hbelow.1,
        hr.substitute_substitute a b hholds.2 hbelow.2]
  | .func ps ret, hholds, hbelow => by
      simp only [holds, Ty.paramsBelow, Bool.and_eq_true] at hholds hbelow
      simp only [hr.substitute_func, hr.map_substitute_substitute a b hholds.1 hbelow.1,
        hr.substitute_substitute a b hholds.2 hbelow.2]
  | .anonymous ms, hholds, hbelow => by
      simp only [holds, Ty.paramsBelow] at hholds hbelow
      simp only [hr.substitute_anonymous,
        hr.substituteMembers_substituteMembers a b hholds hbelow]
  | .object, _, _ | .void, _, _ | .literal _, _, _ | .declared _, _, _ => by simp [substitute]

theorem Unaltered.map_substitute_substitute (hr : r.Unaltered) (a b : List Ty) : ∀ {ts : List Ty},
    r.holdsAll ts = true → Ty.paramsBelowAll a.length ts = true →
      (ts.map (r.substitute a)).map (r.substitute b) =
        ts.map (r.substitute (a.map (r.substitute b)))
  | [], _, _ => rfl
  | t :: ts, hholds, hbelow => by
      simp only [holdsAll, Ty.paramsBelowAll, Bool.and_eq_true] at hholds hbelow
      simp only [List.map_cons, hr.substitute_substitute a b hholds.1 hbelow.1,
        hr.map_substitute_substitute a b hholds.2 hbelow.2]

theorem Unaltered.substituteMembers_substituteMembers (hr : r.Unaltered) (a b : List Ty) :
    ∀ {ms : List Member}, r.holdsMembers ms = true → Ty.paramsBelowMembers a.length ms = true →
      r.substituteMembers b (r.substituteMembers a ms) =
        r.substituteMembers (a.map (r.substitute b)) ms
  | [], _, _ => by simp [substituteMembers]
  | ⟨name, t⟩ :: ms, hholds, hbelow => by
      simp only [holdsMembers, Ty.paramsBelowMembers, Bool.and_eq_true] at hholds hbelow
      simp only [substituteMembers, hr.substitute_substitute a b hholds.1 hbelow.1,
        hr.substituteMembers_substituteMembers a b hholds.2 hbelow.2]

end

/-- Closing an instance later is closing it over the closed arguments. -/
theorem instantiate?_substitute {definition : Ty} (h : r.instantiate? definition a = some u)
    (b : List Ty) :
    r.instantiate? definition (a.map (r.substitute b)) = some (r.substitute b u) := by
  obtain ⟨g, _, _, _, rfl, -, -⟩ := instantiate?_kind.mp h
  rw [instantiate?_declared] at h ⊢
  rw [List.length_map]
  split at h
  · rename_i harity
    obtain rfl := Option.some.inj h
    rw [if_pos harity, substitute_inst, if_pos harity]
  · cases h

/-! ## §3  Instances that are closed meanwhile -/

/-- The registries differ in what they keep of instances at most. -/
structure SameDeclarations (r r' : Registry) : Prop where
  declarations : r'.declarations = r.declarations
  redefined : r'.redefined = r.redefined

namespace SameDeclarations

theorem trans {r'' : Registry} (h : r.SameDeclarations r') (h' : r'.SameDeclarations r'') :
    r.SameDeclarations r'' :=
  ⟨h'.declarations.trans h.declarations, h'.redefined.trans h.redefined⟩

theorem isRedefined (h : r.SameDeclarations r') (t : Ty) : r'.isRedefined t = r.isRedefined t := by
  rw [Registry.isRedefined, Registry.isRedefined, h.redefined]

theorem declaration? (h : r.SameDeclarations r') (t : Ty) :
    r'.declaration? t = r.declaration? t := by
  cases t <;> simp [Registry.declaration?, h.isRedefined, h.declarations]

theorem nullable (h : r.SameDeclarations r') (t : Ty) : r'.nullable t = r.nullable t := by
  have henum : r'.isEnum t = r.isEnum t := by
    simp [isEnum, variants?, h.declaration?]
  have hvalue : r'.isValueType t = r.isValueType t := by
    cases t <;> simp [isValueType, h.isRedefined, henum]
  have hplain : r'.underlying? t = r.underlying? t := by
    cases t <;> simp [underlying?, h.isRedefined]
  rw [Registry.nullable, Registry.nullable, hvalue, hplain]

theorem instantiate? (h : r.SameDeclarations r') (definition : Ty) (args : List Ty) :
    r'.instantiate? definition args = r.instantiate? definition args := by
  simp [Registry.instantiate?, h.declaration?]

mutual

theorem substitute_apply (h : r.SameDeclarations r') (a : List Ty) : ∀ t : Ty,
    r'.substitute a t = r.substitute a t
  | .param _ | .object | .void | .literal _ | .declared _ => by
      simp [Registry.substitute, h.isRedefined]
  | .nullable u | .array u | .seq _ u | .expression u => by
      simp [Registry.substitute, h.isRedefined, h.nullable, h.substitute_apply a u]
  | .dictionary k v | .keyValue k v => by
      simp [Registry.substitute, h.isRedefined, h.substitute_apply a k, h.substitute_apply a v]
  | .func ps ret => by
      simp [Registry.substitute, h.isRedefined, h.substituteAll a ps, h.substitute_apply a ret]
  | .anonymous ms => by
      simp [Registry.substitute, h.isRedefined, h.substituteMembers a ms]
  | .inst g ts => by
      simp [Registry.substitute, h.instantiate?, h.substituteAll a ts]

theorem substituteAll (h : r.SameDeclarations r') (a : List Ty) : ∀ ts : List Ty,
    r'.substituteAll a ts = r.substituteAll a ts
  | [] => by simp [Registry.substituteAll]
  | t :: ts => by simp [Registry.substituteAll, h.substitute_apply a t, h.substituteAll a ts]

theorem substituteMembers (h : r.SameDeclarations r') (a : List Ty) : ∀ ms : List Member,
    r'.substituteMembers a ms = r.substituteMembers a ms
  | [] => by simp [Registry.substituteMembers]
  | ⟨_, t⟩ :: ms => by
      simp [Registry.substituteMembers, h.substitute_apply a t, h.substituteMembers a ms]

end

end SameDeclarations

theorem sameDeclarations_foldl {step : Registry → Ty → Registry}
    (hstep : ∀ (r : Registry) (t : Ty), r.SameDeclarations (step r t)) :
    ∀ (ts : List Ty) (r : Registry), r.SameDeclarations (ts.foldl step r)
  | [], _ => ⟨rfl, rfl⟩
  | t :: ts, r => (hstep r t).trans (sameDeclarations_foldl hstep ts (step r t))

theorem sameDeclarations_closeWithin : ∀ (n : Nat) (r : Registry) (t : Ty),
    r.SameDeclarations (closeWithin n r t)
  | 0, _, _ => ⟨rfl, rfl⟩
  | n + 1, r, t => by
      cases t with
      | inst g args =>
          rw [closeWithin]
          split
          · rename_i d _ _
            have hkept : r.SameDeclarations
                { r with instances := r.instances ++ [(.inst g args, d)] } := ⟨rfl, rfl⟩
            exact hkept.trans (sameDeclarations_foldl (sameDeclarations_closeWithin n) _ _)
          · exact ⟨rfl, rfl⟩
      | _ => exact ⟨rfl, rfl⟩

/-- Closing instances changes nothing that arguments are put in by. -/
theorem sameDeclarations_close (r : Registry) (ts : List Ty) : r.SameDeclarations (r.close ts) :=
  sameDeclarations_foldl (sameDeclarations_closeWithin _) _ _

theorem substitute_close (r : Registry) (ts : List Ty) :
    (r.close ts).substitute = r.substitute :=
  funext fun a => funext ((r.sameDeclarations_close ts).substitute_apply a)

/-- Putting in arguments composes, whatever instances are closed between the steps, and so does
closing a generic record. -/
theorem substitute_composes (hr : r.Unaltered) (ht : r.holds t = true)
    (hbelow : t.paramsBelow a.length = true) (b ts : List Ty) :
    (r.close ts).substitute b (r.substitute a t) =
        (r.close ts).substitute (a.map ((r.close ts).substitute b)) t ∧
      ∀ definition args u, r.instantiate? definition args = some u →
        (r.close ts).instantiate? definition (args.map ((r.close ts).substitute b)) =
          some ((r.close ts).substitute b u) := by
  rw [substitute_close]
  refine ⟨hr.substitute_substitute a b ht hbelow, fun definition args u hu => ?_⟩
  rw [(r.sameDeclarations_close ts).instantiate?]
  exact instantiate?_substitute hu b

/-- The kennel once boxes of numbers and open crates are closed. -/
def stockedKennel : Registry := kennel.close [.inst 2 [.nullable .int32], .inst 3 [.param 1]]

/-- From a key and what is boxed under it to a crate. -/
def packing : Ty :=
  .func [.param 0, .dictionary (.param 0) (.array (.inst 2 [.nullable .int32]))]
    (.inst 3 [.param 1])

theorem substitute_composes_packing :
    (stockedKennel.Unaltered ∧ stockedKennel.holds packing = true ∧
      packing.paramsBelow 2 = true) ∧
    (stockedKennel.close [.inst 3 [.seq .list (.param 1)]]).substitute [.string, .declared 1]
        (stockedKennel.substitute [.param 0, .seq .list (.param 1)] packing) =
      (stockedKennel.close [.inst 3 [.seq .list (.param 1)]]).substitute
        ([.param 0, .seq .list (.param 1)].map
          ((stockedKennel.close [.inst 3 [.seq .list (.param 1)]]).substitute
            [.string, .declared 1])) packing := by
  have hr : stockedKennel.Unaltered := fun _ _ => rfl
  have hholds : stockedKennel.holds packing = true := by decide
  have hbelow : packing.paramsBelow 2 = true := by decide
  refine ⟨⟨hr, hholds, hbelow⟩, ?_⟩
  exact (substitute_composes (a := [.param 0, .seq .list (.param 1)]) hr hholds hbelow
    [.string, .declared 1] [.inst 3 [.seq .list (.param 1)]]).1

/-- A list of a parameter that is made a record of its own takes no arguments any more. -/
theorem substitute_composes_fails :
    let r := Registry.define {} (.seq .list (.param 1)) none [⟨"X", .int32⟩]
    let t : Ty := .seq .list (.param 0)
    (r.declarations = [] ∧ r.holds t = true ∧ t.paramsBelow 1 = true) ∧
      r.substitute [.int32, .string] (r.substitute [.param 1] t) = .seq .list (.param 1) ∧
      r.substitute ([.param 1].map (r.substitute [.int32, .string])) t = .seq .list .string := by
  decide

end Registry

end Recast
