import Recast.Proofs.NextStep
import Recast.Recaster.Basic

/-! # Data paths are well typed

Members are appended and custom lambdas put in without another check.  They fit
because the data type that is tracked along a path is the type of the expression
that its steps build: `Leads` says of steps that they start at one type and end at
another, following a path keeps it (`followPath_leads`), and walking the steps
from an expression of the first type ends in a well-typed one of the second
(`walk_wellTyped`).
-/

namespace Recast

namespace Registry

variable {r : Registry}

/-! ## §1  Steps between types -/

/-- The steps start at the first type and end at the second. -/
def Leads (r : Registry) : Ty → List DataStep → Ty → Prop
  | t, [], u => t = u
  | t, .members ms :: steps, u => r.IsChain t ms ∧ Leads r (chainEnd t ms) steps u
  | t, .custom lambda :: steps, u =>
    ∃ p body, r.CustomOver t lambda p body ∧ Leads r body.ty steps u

theorem leads_append : ∀ {steps steps' : List DataStep} {t u : Ty},
    r.Leads t (steps ++ steps') u ↔ ∃ v, r.Leads t steps v ∧ r.Leads v steps' u
  | [], _, _, _ => by simp [Leads]
  | .members ms :: steps, steps', t, u => by
      simp only [List.cons_append, Leads, leads_append]
      constructor
      · rintro ⟨hms, v, hv, hu⟩
        exact ⟨v, ⟨hms, hv⟩, hu⟩
      · rintro ⟨v, ⟨hms, hv⟩, hu⟩
        exact ⟨hms, v, hv, hu⟩
  | .custom lambda :: steps, steps', t, u => by
      simp only [List.cons_append, Leads, leads_append]
      constructor
      · rintro ⟨p, body, hcustom, v, hv, hu⟩
        exact ⟨v, ⟨p, body, hcustom, hv⟩, hu⟩
      · rintro ⟨v, ⟨p, body, hcustom, hv⟩, hu⟩
        exact ⟨p, body, hcustom, v, hv, hu⟩

/-- Members join a last step of members without changing where the steps lead. -/
theorem Leads.appendMembers {steps : List DataStep} {ms : List Member} {t u : Ty}
    (h : r.Leads t steps u) (hms : r.IsChain u ms) :
    r.Leads t (DataStep.appendMembers steps ms) (chainEnd u ms) := by
  unfold DataStep.appendMembers
  split
  · rename_i hempty
    rw [List.isEmpty_iff.mp hempty]
    exact h
  · split
    · rename_i before hlast
      obtain ⟨front, rfl⟩ := List.getLast?_eq_some_iff.mp hlast
      obtain ⟨v, hfront, hbefore, rfl⟩ := leads_append.mp h
      rw [List.dropLast_concat]
      refine leads_append.mpr ⟨v, hfront, isChain_append.mpr ⟨hbefore, hms⟩, ?_⟩
      exact chainEnd_append
    · exact leads_append.mpr ⟨u, h, hms, rfl⟩

theorem requireMembers_isChain : ∀ {names : List String} {t : Ty} {ms : List Member},
    r.requireMembers t names = .ok ms → r.IsChain t ms
  | [], _, _, h => by
      cases h
      trivial
  | name :: names, t, ms, h => by
      simp only [requireMembers, Checked.bind_eq_ok, requireMember_eq_ok,
        Checked.pure_eq_ok] at h
      obtain ⟨m, hm, rest, hrest, rfl⟩ := h
      exact ⟨by rw [name_of_member? hm]; exact hm, requireMembers_isChain hrest⟩

theorem names_of_requireMembers : ∀ {names : List String} {t : Ty} {ms : List Member},
    r.requireMembers t names = .ok ms → ms.map (·.name) = names
  | [], _, _, h => by
      cases h
      rfl
  | name :: names, t, ms, h => by
      simp only [requireMembers, Checked.bind_eq_ok, requireMember_eq_ok, Checked.pure_eq_ok] at h
      obtain ⟨m, hm, rest, hrest, rfl⟩ := h
      rw [List.map_cons, name_of_member? hm, names_of_requireMembers hrest]

/-! ## §2  Walking the steps -/

theorem ty_select : ∀ {ms : List Member} {e : Expr}, (e.select ms).ty = chainEnd e.ty ms
  | [], _ => rfl
  | m :: ms, e => by
      rw [Expr.select, List.foldl_cons]
      exact @ty_select ms (.member e m)

theorem select_wellTyped : ∀ {ms : List Member} {e : Expr},
    r.IsChain e.ty ms → r.WellTyped e → r.WellTyped (e.select ms)
  | [], _, _, he => he
  | m :: ms, e, hms, he => by
      rw [Expr.select, List.foldl_cons]
      refine @select_wellTyped ms (.member e m) hms.2 ?_
      exact wellTyped_iff.mpr ⟨nodeTyped_member.mpr hms.1, by simpa [Expr.children] using he⟩

@[simp] theorem isAssignable_refl (t : Ty) : r.isAssignable t t = true := by
  cases t with
  | seq kind e => cases kind <;> simp [isAssignable]
  | _ => simp [isAssignable]

/-- An argument of exactly the type of the parameter is put in as it is. -/
theorem betaReduce_eq {custom argument : Expr} {p : Parameter} {body : Expr}
    (hcustom : r.CustomOver argument.ty custom p body) :
    r.betaReduce custom argument = .ok (Expr.substitute p.id argument body) := by
  obtain ⟨t, hparts⟩ := hcustom.parts
  simp [betaReduce, hparts, fitArgument, hcustom.source, bind, Except.bind, pure, Except.pure]

end Registry

theorem Recaster.walk_wellTyped {w : Recaster} : ∀ {steps : List DataStep} {e e' : Expr} {u : Ty},
    w.types.Leads e.ty steps u → w.types.WellTyped e → w.walk e steps = .ok e' →
      e'.ty = u ∧ w.types.WellTyped e'
  | [], _, _, _, hleads, he, h => by
      cases h
      exact ⟨hleads, he⟩
  | .members ms :: steps, e, e', u, ⟨hms, hleads⟩, he, h => by
      refine walk_wellTyped ?_ (Registry.select_wellTyped hms he) h
      rw [Registry.ty_select]
      exact hleads
  | .custom lambda :: steps, e, e', u, ⟨p, body, hcustom, hleads⟩, he, h => by
      simp only [walk, Checked.bind_eq_ok] at h
      obtain ⟨reached, hreached, hrest⟩ := h
      rw [Registry.betaReduce_eq hcustom, Except.ok.injEq] at hreached
      subst hreached
      obtain ⟨t, hparts⟩ := hcustom.parts
      have hrefers : Expr.RefersAs p.id e.ty body := hcustom.source ▸ hcustom.refers
      have hbody : w.types.WellTyped body := hcustom.wellTyped.lambdaBody hparts
      refine walk_wellTyped ?_ (he.substitute body hbody hrefers) hrest
      rw [Expr.ty_substitute hrefers]
      exact hleads

/-! ## §3  Following a path -/

namespace Configuration

variable {c : Configuration}

theorem longestPathRule?_mem {map : Mapping} {path : List String} {n : Nat} {p : PathRule}
    (hbases : map.bases = []) (h : c.longestPathRule? map path = some (n, p)) :
    p ∈ map.pathRules := by
  obtain ⟨i, -, hi⟩ := List.exists_of_findSome?_eq_some h
  rw [pathRule?_of_no_bases hbases] at hi
  obtain ⟨q, hq, heq⟩ := Option.map_eq_some_iff.mp hi
  cases heq
  exact List.mem_of_find?_eq_some hq

variable (hincludes : c.NoIncludes) (hcoherent : c.Coherent) (hcustoms : c.CustomsTyped)

include hincludes hcoherent hcustoms in
/-- A step starts at the data type and ends at the one that is tracked from then on. -/
theorem advance_leads {name : String} {model data : Ty} {rest : List String}
    {a : Advance} {s s' : TypeTable} (h : c.Advances model data name rest s a s') :
    c.types.Leads data [a.step] a.data := by
  cases h with
  | alike _ _ hd => exact ⟨⟨by rw [Registry.name_of_member? hd]; exact hd, trivial⟩, rfl⟩
  | members _ hmap _ _ hown =>
      obtain ⟨hmem, rfl, -⟩ := mapping?_mem hmap
      rw [memberRule?_of_no_bases (hincludes _ hmem).1] at hown
      exact ⟨(hcoherent _ hmem).source _ (Mapping.ownRule?_mem hown).1, rfl⟩
  | custom _ hmap _ _ hown _ hcustom =>
      obtain ⟨hmem, rfl, -⟩ := mapping?_mem hmap
      rw [memberRule?_of_no_bases (hincludes _ hmem).1] at hown
      obtain ⟨q, body, hover⟩ :=
        (hcustoms _ hmem).rules _ (Mapping.ownRule?_mem hown).1 _ hcustom
      obtain ⟨ty, hparts⟩ := hover.parts
      refine ⟨q, body, hover, ?_⟩
      simp [Registry.Leads, MemberRule.inputType?, hcustom, hparts]
  | path _ hmap hlongest _ hparts =>
      obtain ⟨hmem, rfl, -⟩ := mapping?_mem hmap
      have hrule := longestPathRule?_mem (hincludes _ hmem).1 hlongest
      obtain ⟨q, body, hover⟩ := (hcustoms _ hmem).paths _ hrule
      obtain ⟨ty, hlambda⟩ := hover.parts
      rw [hparts] at hlambda
      cases hlambda
      exact ⟨q, _, hover, rfl⟩

theorem appendStep_leads {steps : List DataStep} {step : DataStep} {t u v : Ty}
    (hsteps : c.types.Leads t steps u) (hstep : c.types.Leads u [step] v) :
    c.types.Leads t (appendStep steps step) v := by
  cases step with
  | members ms =>
      obtain ⟨hms, rfl⟩ := hstep
      exact hsteps.appendMembers hms
  | custom lambda => exact Registry.leads_append.mpr ⟨u, hsteps, hstep⟩

include hincludes hcoherent hcustoms in
/-- Steps that lead to the data type are followed by steps that lead on from it. -/
theorem followPath_leads {limit budget : Nat} {fullPath : String} {model data t : Ty}
    {path : List String} {steps steps' : List DataStep} {s s' : TypeTable}
    (h : Returns (c.followPath limit fullPath budget model data path steps) s steps' s')
    (hsteps : c.types.Leads t steps data) : ∃ u, c.types.Leads t steps' u :=
  followPath_ends (P := fun u steps => c.types.Leads t steps u)
    (fun _ _ _ _ hms hsteps => ⟨_, hsteps.appendMembers (Registry.requireMembers_isChain hms)⟩)
    (fun _ _ _ _ _ _ _ _ ha hsteps =>
      appendStep_leads hsteps (advance_leads hincludes hcoherent hcustoms ha))
    h hsteps

end Configuration

end Recast
