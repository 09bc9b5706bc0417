import Recast.Config.Inherit
import Recast.Proofs.Typing

/-! # Coherent configurations

The rules of a mapping hold members: the one that is populated and the chain that
it is read from.  A configuration is coherent when these are the members that its
types have.  A planned one is as long as the members of a destination have different
names (`Plan.finish_coherent`), and without inclusion every lookup answers with a rule
of the mapping itself.
-/

namespace Recast

/-! ## §1  Chains of members -/

namespace Registry

variable (r : Registry)

/-- Each member is one that the type reached before it has. -/
def IsChain : Ty → List Member → Prop
  | _, [] => True
  | t, m :: ms => r.member? t m.name = some m ∧ IsChain m.ty ms

/-- The type that a chain leads to. -/
def chainEnd : Ty → List Member → Ty
  | t, [] => t
  | _, m :: ms => chainEnd m.ty ms

variable {r}

theorem isChain_append : ∀ {t : Ty} {ms ms' : List Member},
    r.IsChain t (ms ++ ms') ↔ r.IsChain t ms ∧ r.IsChain (chainEnd t ms) ms'
  | _, [], _ => by simp [IsChain, chainEnd]
  | _, m :: ms, ms' => by simp [IsChain, chainEnd, isChain_append, and_assoc]

theorem chainEnd_append : ∀ {t : Ty} {ms ms' : List Member},
    chainEnd t (ms ++ ms') = chainEnd (chainEnd t ms) ms'
  | _, [], _ => rfl
  | _, _ :: ms, _ => @chainEnd_append _ ms _

theorem chainEnd_eq_getLast? : ∀ {ms : List Member} {t : Ty},
    chainEnd t ms = (ms.getLast?.map (·.ty)).getD t
  | [], _ => rfl
  | [_], _ => rfl
  | m :: m' :: ms, t => by
      rw [chainEnd, chainEnd_eq_getLast?, List.getLast?_cons_cons,
        List.getLast?_eq_some_getLast (List.cons_ne_nil m' ms)]
      rfl

end Registry

/-! ## §2  Coherence -/

/-- The members that are populated are members of the destination. -/
def Mapping.PopulatesMembers (r : Registry) (m : Mapping) : Prop :=
  ∀ name p, m.ownRule? name = some p → r.member? m.destination name = some p.member

theorem Mapping.populatesMembers_of_rules {r : Registry} {m : Mapping}
    (h : ∀ p ∈ m.rules, r.member? m.destination p.member.name = some p.member) :
    m.PopulatesMembers r := by
  intro name p hp
  have hname : p.member.name = name := by simpa using List.find?_some hp
  rw [← hname]
  exact h p (List.mem_of_find?_eq_some hp)

/-- The members of the rules are members of the two types. -/
structure Mapping.Coherent (r : Registry) (m : Mapping) : Prop where
  member : m.PopulatesMembers r
  source : ∀ p ∈ m.rules, r.IsChain m.source p.source

theorem Mapping.coherent_of_rules {r : Registry} {m : Mapping} (h : ∀ p ∈ m.rules,
    r.member? m.destination p.member.name = some p.member ∧ r.IsChain m.source p.source) :
    m.Coherent r where
  member := Mapping.populatesMembers_of_rules fun p hp => (h p hp).1
  source p hp := (h p hp).2

namespace Configuration

def Coherent (c : Configuration) : Prop := ∀ m ∈ c.maps, m.Coherent c.types

def PopulatesMembers (c : Configuration) : Prop := ∀ m ∈ c.maps, m.PopulatesMembers c.types

/-- No mapping takes rules from another. -/
def NoIncludes (c : Configuration) : Prop := ∀ m ∈ c.maps, m.bases = [] ∧ m.derived = []

variable {c : Configuration}

theorem mapping?_mem {source destination : Ty} {m : Mapping}
    (h : c.mapping? source destination = some m) :
    m ∈ c.maps ∧ m.source = source ∧ m.destination = destination := by
  have hpair : m.pair = ⟨source, destination⟩ := by simpa using List.find?_some h
  simp only [Mapping.pair, TyPair.mk.injEq] at hpair
  exact ⟨List.mem_of_find?_eq_some h, hpair⟩

theorem searchBases_of_no_bases {α : Type} {ask : Mapping → Option α} {m : Mapping}
    (h : m.bases = []) : c.searchBases ask m = ask m := by
  unfold searchBases
  rw [h, List.length_nil, Nat.zero_add, searchPending]
  simp only [List.contains_nil, Bool.false_eq_true, if_false, h, List.filterMap_nil,
    List.nil_append]
  cases ask m with
  | some found => rfl
  | none => cases c.linkCount <;> rfl

theorem memberRule?_of_no_bases {m : Mapping} (h : m.bases = []) (name : String) :
    c.memberRule? m name = m.ownRule? name := by
  unfold memberRule?
  rw [searchBases_of_no_bases h]
  cases m.ownRule? name with
  | none => rfl
  | some p => cases hp : p.isSettled <;> simp [Option.filter, hp]

theorem pathRule?_of_no_bases {m : Mapping} (h : m.bases = []) (path : List String) :
    c.pathRule? m path = m.ownPathRule? path :=
  searchBases_of_no_bases h

end Configuration

theorem Mapping.ownRule?_mem {m : Mapping} {name : String} {p : MemberRule}
    (h : m.ownRule? name = some p) : p ∈ m.rules ∧ p.member.name = name :=
  ⟨List.mem_of_find?_eq_some h, by simpa using List.find?_some h⟩

/-! ## §3  Custom lambdas -/

/-- A well-typed lambda of one parameter, of the type it is read from.  A parameter is told by
its number, so all references of that number are to it. -/
structure Registry.CustomOver (r : Registry) (source : Ty) (custom : Expr) (p : Parameter)
    (body : Expr) : Prop where
  parts : ∃ t, custom.lambdaParts? = some ([p], body, t)
  wellTyped : r.WellTyped custom
  source : p.ty = source
  refers : Expr.RefersAs p.id p.ty body

/-- Every custom lambda of the mapping is well typed over its source. -/
structure Mapping.CustomsTyped (r : Registry) (m : Mapping) : Prop where
  rules : ∀ p ∈ m.rules, ∀ custom ∈ p.custom, ∃ q body, r.CustomOver m.source custom q body
  paths : ∀ p ∈ m.pathRules, ∃ q body, r.CustomOver m.source p.custom q body

def Configuration.CustomsTyped (c : Configuration) : Prop :=
  ∀ m ∈ c.maps, m.CustomsTyped c.types

theorem Registry.WellTyped.lambdaBody {r : Registry} {params : List Parameter} {body : Expr}
    {t : Ty} : ∀ {e : Expr}, e.lambdaParts? = some (params, body, t) → r.WellTyped e →
      r.WellTyped body := by
  intro e
  induction e using Expr.lambdaParts?.induct with
  | case1 ps b t' =>
      intro h he
      simp only [Expr.lambdaParts?, Option.some.injEq, Prod.mk.injEq] at h
      obtain ⟨-, rfl, -⟩ := h
      exact he.child (by simp [Expr.children])
  | case2 e t' ih =>
      intro h he
      exact ih h (he.child (by simp [Expr.children]))
  | case3 e hlambda hquote =>
      intro h
      cases e <;> simp_all [Expr.lambdaParts?]

end Recast
