import Recast.Proofs.PathMapping
import Recast.Proofs.PathSteps
import Recast.Proofs.ScalarMapping

/-! # Rows that conform

A row conforms to a type if whatever can be read from it, member after member, is of
the type that the last member declares, or null.  Such rows are what paths are
followed for where mappings read scalars from scalars.

- `Configuration.Conforms` — values whose members are of their declared types.
- `Configuration.MapsScalars` — configurations that map scalars to their like.
- `MapsScalars.follows` — the premises of `Recaster.Follows.path`.
- `followPath_members` — all steps are plain members.
-/

namespace Recast

namespace Configuration

variable {c : Configuration} {data model s t : Ty} {v : Value}

/-! ## §1  Conforming values -/

/-- Whatever is read from the value is of its declared type, or null. -/
def Conforms (c : Configuration) (v : Value) (t : Ty) : Prop :=
  ∀ ⦃ms u⦄, c.types.IsChain t ms → c.readChain v t ms = .ok u →
    c.types.Suits u (Registry.chainEnd t ms)

theorem Conforms.suits (h : c.Conforms v t) : c.types.Suits v t := @h [] v trivial rfl

theorem readChain_append : ∀ {ms ms' : List Member} {v u : Value} {t : Ty},
    c.readChain v t ms = .ok u →
      c.readChain v t (ms ++ ms') = c.readChain u (Registry.chainEnd t ms) ms'
  | [], _, _, _, _, h => by
      cases h
      rfl
  | m :: ms, ms', v, u, t, h => by
      simp only [readChain, Checked.bind_eq_ok] at h
      obtain ⟨y, hy, hrest⟩ := h
      rw [List.cons_append, readChain, hy]
      exact readChain_append hrest

/-- What is read from a conforming value conforms. -/
theorem Conforms.read {ms : List Member} {u : Value} (h : c.Conforms v t)
    (hms : c.types.IsChain t ms) (hu : c.readChain v t ms = .ok u) :
    c.Conforms u (Registry.chainEnd t ms) := by
  intro ms' x hms' hx
  rw [← Registry.chainEnd_append]
  exact h (Registry.isChain_append.mpr ⟨hms, hms'⟩) ((readChain_append hu).trans hx)

theorem member?_mem {r : Registry} {m : Member} {name : String} (ht : r.isRecord t = true)
    (h : r.member? t name = some m) : m ∈ r.members t := by
  rw [Registry.member?, ht, Bool.true_or, if_pos rfl] at h
  exact List.mem_of_find?_eq_some h

/-- A value conforms if it is one of the type and whatever its members read conforms. -/
theorem conforms_of_members (hv : c.types.Suits v t) (hms : ∀ m u,
    c.types.member? t m.name = some m →
      valueMember (c.types.underlying? t).isSome v m.name = .ok u → c.Conforms u m.ty) :
    c.Conforms v t := by
  intro ms u hchain hu
  cases ms with
  | nil =>
      cases hu
      exact hv
  | cons m ms =>
      simp only [readChain, Checked.bind_eq_ok] at hu
      obtain ⟨y, hy, hrest⟩ := hu
      exact hms m y hchain.1 hy hchain.2 hrest

/-- A conforming record has fields. -/
theorem Conforms.fields (h : c.Conforms v t) (hv : v.isNull = false)
    (ht : c.types.isRecord t = true) : v.asFields?.isSome = true := by
  have hcore := Registry.core_of_record ht
  have hscalar : c.types.isScalar (c.types.core t) = false := by
    rw [hcore, Registry.isScalar_of_record ht]
  rw [Registry.isScalar_core, Bool.or_eq_false_iff, hcore] at hscalar
  obtain ⟨hliteral, henum⟩ := hscalar
  simp only [Registry.isLiteral, Option.isSome_eq_false_iff, Option.isNone_iff_eq_none] at hliteral
  simp only [Registry.isEnum, Option.isSome_eq_false_iff, Option.isNone_iff_eq_none] at henum
  have hsuits := h.suits
  simp only [Registry.Suits, hv, Bool.false_eq_true, false_or, hcore, hliteral, henum] at hsuits
  exact hsuits ht

/-! ### Literals -/

theorem holds_date {l : Literal} {v : Value} (hl : l = .dateTime ∨ l = .dateTimeOffset)
    (h : l.holds v = true) : ∃ time, ∀ name, ownMember? v name = dateMember? time name := by
  rcases hl with rfl | rfl
  · cases v with
    | dateTime time => exact ⟨time, fun _ => rfl⟩
    | num n => cases n <;> cases h
    | _ => cases h
  · cases v with
    | dateTimeOffset time => exact ⟨time.toLocal, fun _ => rfl⟩
    | num n => cases n <;> cases h
    | _ => cases h

/-- What a member of a literal reads is a literal again. -/
theorem literal_reads {l : Literal} {m : Member} {u : Value}
    (hfresh : c.types.isRedefined (.literal l) = false) (hv : l.holds v = true)
    (hm : c.types.member? (.literal l) m.name = some m)
    (hu : valueMember false v m.name = .ok u) :
    ∃ l', m.ty = .literal l' ∧ l'.holds u = true := by
  have hown : ownMember? v m.name = some u := by
    unfold valueMember at hu
    cases hnull : v.isNull with
    | true => simp [hnull] at hu
    | false =>
        simp only [hnull, Bool.false_and, Bool.false_eq_true, if_false] at hu
        split at hu
        · rename_i w hw
          rw [hw, Except.ok.inj hu]
        · cases hu
  rw [Registry.member?_builtin hfresh (by simp) (by simp) (by simp)] at hm
  obtain ⟨t, ht, heq⟩ := Option.map_eq_some_iff.mp hm
  have hty : m.ty = t := by rw [← heq]
  rw [hty]
  rcases Registry.builtinMember?_literal ht with ⟨rfl, hname, rfl⟩ | ⟨hdate, hcases⟩
  · obtain ⟨text, rfl⟩ := Literal.holds_string hv
    rw [hname] at hown
    cases hown
    exact ⟨.int32, rfl, rfl⟩
  · obtain ⟨time, hmember⟩ := holds_date hdate hv
    rw [hmember] at hown
    rcases hcases with ⟨hname, rfl⟩ | ⟨hname, rfl⟩
    · refine ⟨.int32, rfl, ?_⟩
      rcases hname with hname | hname | hname <;>
      · rw [hname] at hown
        cases hown
        rfl
    · rw [hname] at hown
      cases hown
      exact ⟨.dateTime, rfl, rfl⟩

/-- Literals conform, whatever is read from them. -/
theorem conforms_literal {l : Literal} (hfresh : ∀ l, c.types.isRedefined (.literal l) = false)
    (hv : l.holds v = true) : c.Conforms v (.literal l) := by
  intro ms
  induction ms generalizing v l with
  | nil =>
      intro u _ hu
      cases hu
      right
      simp [Registry.core, Registry.chainEnd, Registry.variants?, Registry.declaration?,
        Registry.literal?, hfresh, hv]
  | cons m ms ih =>
      intro u hchain hu
      simp only [readChain, Checked.bind_eq_ok] at hu
      obtain ⟨y, hy, hrest⟩ := hu
      obtain ⟨hm, hms⟩ := hchain
      obtain ⟨l', hty, hholds⟩ := literal_reads (hfresh l) hv hm hy
      rw [Registry.chainEnd]
      rw [hty] at hms hrest ⊢
      exact ih hholds hms hrest

/-! ## §2  Rules between scalars -/

/-- Mappings of records without custom lambdas, paths and inclusions, where a scalar that is read
from a scalar is of its type, or an enumeration bridges them. -/
structure MapsScalars (c : Configuration) : Prop where
  maps : c.MapsRecords
  includes : c.NoIncludes
  paths : ∀ m ∈ c.maps, m.pathRules = []
  coherent : c.Coherent
  customs : ∀ m ∈ c.maps, ∀ p ∈ m.rules, p.custom = none
  scalars : ∀ m ∈ c.maps, ∀ p ∈ m.rules, (p.isFed && !p.ignored) = true →
    c.types.isScalar (c.types.core (p.inputType?.getD p.member.ty)) = true →
      c.types.isScalar (c.types.core p.member.ty) = true →
        c.types.Bridged (p.inputType?.getD p.member.ty) p.member.ty

theorem mapsScalars_single {r : Registry} {map : Mapping} (hsource : r.isRecord map.source = true)
    (hdest : r.isRecord map.destination = true) (hincludes : map.bases = [] ∧ map.derived = [])
    (hpaths : map.pathRules = []) (hrules : ∀ p ∈ map.rules,
      (r.member? map.destination p.member.name = some p.member ∧ r.IsChain map.source p.source) ∧
        p.custom = none ∧ (r.isScalar (r.core (p.inputType?.getD p.member.ty)) = true →
          r.isScalar (r.core p.member.ty) = true →
            r.Bridged (p.inputType?.getD p.member.ty) p.member.ty)) :
    (Configuration.mk r [map]).MapsScalars where
  maps m hm := by
    obtain rfl := List.mem_singleton.mp hm
    exact ⟨hsource, hdest⟩
  includes m hm := by
    obtain rfl := List.mem_singleton.mp hm
    exact hincludes
  paths m hm := by
    obtain rfl := List.mem_singleton.mp hm
    exact hpaths
  coherent m hm := by
    obtain rfl := List.mem_singleton.mp hm
    exact Mapping.coherent_of_rules fun p hp => (hrules p hp).1
  customs m hm p hp := by
    obtain rfl := List.mem_singleton.mp hm
    exact (hrules p hp).2.1
  scalars m hm p hp _ := by
    obtain rfl := List.mem_singleton.mp hm
    exact (hrules p hp).2.2

/-- Scalars are read from scalars only. -/
def ReadsScalars (c : Configuration) : Prop :=
  ∀ m ∈ c.maps, ∀ p ∈ m.rules, (p.isFed && !p.ignored) = true →
    c.types.isScalar (c.types.core p.member.ty) = true →
      c.types.isScalar (c.types.core (p.inputType?.getD p.member.ty)) = true

/-- Scalars that a path leads to are bridged. -/
theorem Meets.bridged (hc : c.MapsScalars) (hreads : c.ReadsScalars)
    (hmodel : c.types.isRecord model = true) (h : c.Meets data model s t)
    (ht : c.types.isScalar (c.types.core t) = true) : c.types.Bridged s t := by
  induction h with
  | root =>
      rw [Registry.isRecord_of_scalar_core ht] at hmodel
      cases hmodel
  | same => exact .inl rfl
  | value _ hs hunder ih =>
      rw [← Registry.core_of_underlying? hunder] at ht
      exact (ih ht).congr (Registry.core_of_underlying? hs).symm
        (Registry.core_of_underlying? hunder).symm
  | rule _ _ hmap hp hused _ =>
      have hmem := (mapping?_mem hmap).1
      have hrule := (Mapping.ownRule?_mem hp).1
      exact hc.scalars _ hmem _ hrule hused (hreads _ hmem _ hrule hused ht) ht

/-! ## §3  Paths -/

theorem keeps_conforms (hc : c.MapsScalars) :
    c.Keeps fun v t => v.isNull = true ∨ c.Conforms v t where
  null _ := .inl rfl
  member {v s m u} hv hnull hm hu := by
    rcases hv with h | h
    · rw [h] at hnull
      cases hnull
    · have hchain : c.types.IsChain s [m] := ⟨hm, trivial⟩
      exact .inr (h.read hchain hu)
  chain hmem hp hv hnull hu := by
    rcases hv with h | h
    · rw [h] at hnull
      cases hnull
    · exact .inr (h.read ((hc.coherent _ hmem).source _ hp) hu)
  custom hmem hp hcustom := by
    rw [hc.customs _ hmem _ hp] at hcustom
    cases hcustom

/-- Paths are followed for rows that conform. -/
theorem MapsScalars.follows {w : Recaster} {root : Nat} (hc : w.config.MapsScalars)
    (hapart : ∀ s t, w.config.Meets data model s t → w.config.KeepsApart s t) :
    w.Follows (fun v t => v.isNull = true ∨ w.config.Conforms v t) root data model where
  maps := hc.maps
  includes := hc.includes
  paths := hc.paths
  members m hm := (hc.coherent m hm).member
  customs := by
    intro m hm p hp custom hcustom
    rw [hc.customs m hm p hp] at hcustom
    cases hcustom
  keeps := keeps_conforms hc
  apart := hapart
  records := by
    intro s t _ _ hmap u hu hnull
    obtain ⟨map, hmap⟩ := Option.isSome_iff_exists.mp hmap
    rcases hu with h | h
    · rw [h] at hnull
      cases hnull
    · exact .inl (h.fields hnull (hc.maps.mapping? hmap).1)

/-! ## §4  Steps without custom lambdas -/

theorem advance_members (hc : c.MapsScalars) {name : String} {rest : List String} {a : Advance}
    {T T' : TypeTable} (h : c.Advances model data name rest T a T') : a.step.isCustom = false := by
  cases h with
  | alike => rfl
  | members => rfl
  | custom _ hmap _ _ hown _ hcustom =>
      have hmem := (mapping?_mem hmap).1
      rw [memberRule?_of_no_bases (hc.includes _ hmem).1] at hown
      rw [hc.customs _ hmem _ (Mapping.ownRule?_mem hown).1] at hcustom
      cases hcustom
  | path _ hmap hlongest =>
      have hmem := (mapping?_mem hmap).1
      rw [longestPathRule?_of_no_paths (hc.includes _ hmem).1 (hc.paths _ hmem)] at hlongest
      cases hlongest

/-- Without custom lambdas all steps are members. -/
theorem followPath_members (hc : c.MapsScalars) {limit budget : Nat} {fullPath : String}
    {path : List String} {steps steps' : List DataStep} {T T' : TypeTable}
    (h : Returns (c.followPath limit fullPath budget model data path steps) T steps' T')
    (hsteps : steps.any (·.isCustom) = false) : steps'.any (·.isCustom) = false := by
  obtain ⟨_, hsteps'⟩ := followPath_ends (P := fun _ steps => steps.any (·.isCustom) = false)
    (fun ty _ _ _ _ hsteps => ⟨ty, DataStep.appendMembers_any.trans hsteps⟩)
    (fun _ _ _ _ _ _ _ _ ha hsteps => by
      rw [DataStep.appendStep_any, hsteps, advance_members hc ha]
      rfl)
    h hsteps
  exact hsteps'

end Configuration

end Recast
