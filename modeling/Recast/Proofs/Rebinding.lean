import Recast.Config.Basic
import Recast.Proofs.Nodes

/-! # What is bound in a recast expression

Every parameter is replaced by one parameter wherever it is named, and what is built
around the references brings no free ones with it: custom lambdas are closed.

- `Expr.Free` — a reference that no lambda around it binds.
- `Expr.Builds` — what the members of a chain may become: members, conversions and
  the bodies of custom lambdas around the recast base.
- `Expr.Rebinds` — the recast expression next to the given one, with the replacement
  of every parameter in its place.
-/

namespace Recast

/-! ## §1  Free parameters -/

namespace Expr

/-- A reference to the parameter that no lambda around it binds. -/
inductive Free (p : Parameter) : Expr → Prop where
  | reference : Free p (.param p)
  | lambda {ps : List Parameter} {body : Expr} {t : Ty} (hbody : Free p body)
      (hps : ∀ q ∈ ps, q.id ≠ p.id) : Free p (.lambda ps body t)
  | child {e c : Expr} (he : ∀ ps body t, e ≠ .lambda ps body t) (hc : c ∈ e.children)
      (h : Free p c) : Free p e

/-- Neither a reference nor a lambda: the node names no parameter. -/
def Plain : Expr → Prop
  | .param _ | .lambda _ _ _ => False
  | _ => True

variable {p q : Parameter} {e x : Expr} {id : Nat}

theorem free_param : Free p (.param q) ↔ q = p := by
  constructor
  · intro h
    cases h with
    | reference => rfl
    | child _ hc => cases hc
  · rintro rfl
    exact .reference

theorem free_lambda {ps : List Parameter} {body : Expr} {t : Ty} :
    Free p (.lambda ps body t) ↔ Free p body ∧ ∀ q ∈ ps, q.id ≠ p.id := by
  constructor
  · intro h
    cases h with
    | lambda hbody hps => exact ⟨hbody, hps⟩
    | child he => exact absurd rfl (he ps body t)
  · rintro ⟨hbody, hps⟩
    exact .lambda hbody hps

theorem Plain.not_param (he : e.Plain) : ∀ p, e ≠ .param p := by
  rintro p rfl
  exact he

theorem Plain.not_lambda (he : e.Plain) : ∀ ps body t, e ≠ .lambda ps body t := by
  rintro ps body t rfl
  exact he

theorem free_plain (he : e.Plain) : Free p e ↔ ∃ c ∈ e.children, Free p c := by
  constructor
  · intro h
    cases h with
    | reference => exact he.elim
    | lambda => exact he.elim
    | child _ hc h => exact ⟨_, hc, h⟩
  · rintro ⟨c, hc, h⟩
    exact .child he.not_lambda hc h

theorem named_plain (he : e.Plain) : e.named = [] := by
  cases e with
  | param | lambda => exact he.elim
  | _ => rfl

theorem mem_parameters_iff :
    q ∈ e.parameters ↔ q ∈ e.named ∨ ∃ c ∈ e.children, q ∈ c.parameters := by
  unfold parameters
  rw [nodes_eq, List.flatMap_cons, List.mem_append, List.flatMap_assoc, List.mem_flatMap]

theorem plain_substitute (he : e.Plain) : (substitute id x e).Plain := by
  cases e using shapes with
  | param | lambda => exact he.elim
  | _ => trivial

/-- What is free after a replacement was free before, or is free in what was put in. -/
theorem free_substitute (e : Expr) :
    Free p (substitute id x e) → (Free p e ∧ p.id ≠ id) ∨ Free p x := by
  induction e using induction_children with
  | step e ih =>
      intro h
      by_cases hplain : e.Plain
      · rw [free_plain (plain_substitute hplain), children_substitute hplain.not_param] at h
        obtain ⟨_, hmem, h⟩ := h
        obtain ⟨c, hc, rfl⟩ := List.mem_map.mp hmem
        exact (ih c hc h).imp_left fun ⟨hfree, hid⟩ => ⟨(free_plain hplain).mpr ⟨c, hc, hfree⟩, hid⟩
      · cases e with
        | param q =>
            by_cases hq : q.id = id
            · rw [substitute, if_pos hq] at h
              exact .inr h
            · rw [substitute, if_neg hq] at h
              exact .inl ⟨h, free_param.mp h ▸ hq⟩
        | lambda ps body t =>
            obtain ⟨hbody, hps⟩ := free_lambda.mp h
            exact (ih body (by simp [children]) hbody).imp_left fun ⟨hfree, hid⟩ =>
              ⟨free_lambda.mpr ⟨hfree, hps⟩, hid⟩
        | _ => exact absurd trivial hplain

theorem mem_parameters_substitute (e : Expr) :
    q ∈ (substitute id x e).parameters → q ∈ e.parameters ∨ q ∈ x.parameters := by
  induction e using induction_children with
  | step e ih =>
      intro h
      by_cases hplain : e.Plain
      · rw [mem_parameters_iff, named_plain (plain_substitute hplain),
          children_substitute hplain.not_param] at h
        obtain h | ⟨_, hmem, h⟩ := h
        · cases h
        · obtain ⟨c, hc, rfl⟩ := List.mem_map.mp hmem
          exact (ih c hc h).imp_left fun h => mem_parameters_iff.mpr (.inr ⟨c, hc, h⟩)
      · cases e with
        | param p =>
            rw [substitute] at h
            split at h
            · exact .inr h
            · exact .inl h
        | lambda ps body t =>
            rcases mem_parameters_iff.mp h with h | ⟨c, hc, h⟩
            · exact .inl (mem_parameters_iff.mpr (.inl h))
            · obtain rfl := List.mem_singleton.mp hc
              exact (ih body (by simp [children]) h).imp_left fun h =>
                parameters_subset_of_child (by simp [children]) h
        | _ => exact absurd trivial hplain

/-- Quotes bind nothing. -/
theorem free_of_lambdaParts? : ∀ {e : Expr} {ps : List Parameter} {body : Expr} {t : Ty},
    e.lambdaParts? = some (ps, body, t) → Free p body → (∀ q ∈ ps, q.id ≠ p.id) → Free p e
  | .lambda _ _ _, _, _, _, h, hbody, hps => by
      cases h
      exact .lambda hbody hps
  | .unary .quote e _, _, _, _, h, hbody, hps =>
      .child (fun _ _ _ hlambda => by cases hlambda) (by simp [children])
        (free_of_lambdaParts? (e := e) h hbody hps)

theorem parameters_of_lambdaParts? : ∀ {e : Expr} {ps : List Parameter} {body : Expr} {t : Ty},
    e.lambdaParts? = some (ps, body, t) → body.parameters ⊆ e.parameters
  | .lambda _ _ _, _, _, _, h => by
      cases h
      exact parameters_subset_of_child (by simp [children])
  | .unary .quote e _, _, _, _, h =>
      List.Subset.trans (parameters_of_lambdaParts? (e := e) h)
        (parameters_subset_of_child (by simp [children]))

end Expr

/-! ## §2  Custom lambdas -/

namespace Configuration

/-- The lambda of a rule for a member or for a path. -/
def IsCustom (c : Configuration) (custom : Expr) : Prop :=
  ∃ m ∈ c.maps, (∃ rule ∈ m.rules, rule.custom = some custom) ∨
    ∃ rule ∈ m.pathRules, rule.custom = custom

/-- Every custom lambda takes one parameter and has no free ones. -/
def CustomsClosed (c : Configuration) : Prop :=
  ∀ custom, c.IsCustom custom →
    (∃ q body t, custom.lambdaParts? = some ([q], body, t)) ∧ ∀ p, ¬ Expr.Free p custom

end Configuration

namespace Expr

/-- What is built on the base of a chain: members, conversions, and bodies of custom lambdas. -/
inductive Builds (c : Configuration) (base : Expr) : Expr → Prop where
  | base : Builds c base base
  | member {e : Expr} {m : Member} (h : Builds c base e) : Builds c base (.member e m)
  | convert {e : Expr} {t : Ty} (h : Builds c base e) : Builds c base (.unary .convert e t)
  | custom {e custom body : Expr} {q : Parameter} {t : Ty} (hcustom : c.IsCustom custom)
      (hparts : custom.lambdaParts? = some ([q], body, t)) (h : Builds c base e) :
      Builds c base (.substitute q.id e body)

variable {c : Configuration} {base e : Expr} {p : Parameter}

/-- Nothing gets free that way. -/
theorem Builds.free (hclosed : c.CustomsClosed) (h : Builds c base e) : Free p e → Free p base := by
  induction h with
  | base => exact id
  | @member e m _ ih =>
      intro hfree
      obtain ⟨_, hc, hfree⟩ := (free_plain (e := .member e m) trivial).mp hfree
      exact ih (List.mem_singleton.mp hc ▸ hfree)
  | @convert e t _ ih =>
      intro hfree
      obtain ⟨_, hc, hfree⟩ := (free_plain (e := .unary .convert e t) trivial).mp hfree
      exact ih (List.mem_singleton.mp hc ▸ hfree)
  | custom hcustom hparts _ ih =>
      intro hfree
      rcases free_substitute _ hfree with ⟨hbody, hq⟩ | hfree
      · -- In the body only the parameter of the lambda is free.
        refine absurd (free_of_lambdaParts? hparts hbody ?_) ((hclosed _ hcustom).2 p)
        simpa using Ne.symm hq
      · exact ih hfree

/-- Parameters come from the base or from custom lambdas. -/
theorem Builds.parameters (h : Builds c base e) :
    p ∈ e.parameters → p ∈ base.parameters ∨ ∃ custom, c.IsCustom custom ∧ p ∈ custom.parameters := by
  induction h with
  | base => exact .inl
  | member _ ih =>
      intro hp
      rcases mem_parameters_iff.mp hp with hp | ⟨_, hc, hp⟩
      · cases hp
      · exact ih (List.mem_singleton.mp hc ▸ hp)
  | convert _ ih =>
      intro hp
      rcases mem_parameters_iff.mp hp with hp | ⟨_, hc, hp⟩
      · cases hp
      · exact ih (List.mem_singleton.mp hc ▸ hp)
  | custom hcustom hparts _ ih =>
      intro hp
      rcases mem_parameters_substitute _ hp with hp | hp
      · exact .inr ⟨_, hcustom, parameters_of_lambdaParts? hparts hp⟩
      · exact ih hp

/-! ## §3  A recast expression next to the given one -/

/-- The same kind of node with as many parts, whatever its types and names. -/
inductive SameKind : Expr → Expr → Prop where
  | const {v v' : Value} {t t' : Ty} : SameKind (.const v t) (.const v' t')
  | unary {op : UnaryOp} {e e' : Expr} {t t' : Ty} : SameKind (.unary op e t) (.unary op e' t')
  | binary {op : BinaryOp} {l r l' r' : Expr} {c c' : Option Expr} {t t' : Ty} :
      SameKind (.binary op l r c t) (.binary op l' r' c' t')
  | cond {a b d a' b' d' : Expr} {t t' : Ty} : SameKind (.cond a b d t) (.cond a' b' d' t')
  | new {t t' : Ty} {inits inits' : List (String × Expr)} : SameKind (.new t inits) (.new t' inits')
  | newArray {t t' : Ty} {items items' : List Expr} :
      SameKind (.newArray t items) (.newArray t' items')
  | typeIs {e e' : Expr} {tested tested' t t' : Ty} :
      SameKind (.typeIs e tested t) (.typeIs e' tested' t')
  | invoke {f f' : Expr} {args args' : List Expr} {t t' : Ty} :
      SameKind (.invoke f args t) (.invoke f' args' t')
  | default {t t' : Ty} : SameKind (.default t) (.default t')

mutual

/-- The first expression recast, with `ρ p` wherever it names a parameter `p`.  A chain of members
may be built in another way on its recast base, a constant may be converted at once, and
conversions may be put around anything; a call may take fewer arguments. -/
inductive Rebinds (c : Configuration) (ρ : Parameter → Parameter) : Expr → Expr → Prop where
  | param {p : Parameter} : Rebinds c ρ (.param p) (.param (ρ p))
  | lambda {ps : List Parameter} {body body' : Expr} {t t' : Ty} (hbody : Rebinds c ρ body body') :
      Rebinds c ρ (.lambda ps body t) (.lambda (ps.map ρ) body' t')
  | member {e base e' : Expr} {m : Member} (hbase : Rebinds c ρ (Expr.member e m).chainBase base)
      (hbuilds : Builds c base e') : Rebinds c ρ (.member e m) e'
  | folded {op : UnaryOp} {v v' : Value} {t u t' : Ty} :
      Rebinds c ρ (.unary op (.const v t) u) (.const v' t')
  | convert {e e' : Expr} {t : Ty} (h : Rebinds c ρ e e') : Rebinds c ρ e (.unary .convert e' t)
  | call {target target' : Option Expr} {m m' : Method} {args args' : List Expr} {n : Nat}
      (htarget : RebindsAll c ρ target.toList target'.toList)
      (hargs : RebindsAll c ρ (args.take n) args') :
      Rebinds c ρ (.call target m args) (.call target' m' args')
  | node {e e' : Expr} (hkind : SameKind e e') (hparts : RebindsAll c ρ e.children e'.children) :
      Rebinds c ρ e e'

inductive RebindsAll (c : Configuration) (ρ : Parameter → Parameter) :
    List Expr → List Expr → Prop where
  | nil : RebindsAll c ρ [] []
  | cons {e e' : Expr} {es es' : List Expr} (h : Rebinds c ρ e e') (hs : RebindsAll c ρ es es') :
      RebindsAll c ρ (e :: es) (e' :: es')

end

variable {ρ : Parameter → Parameter} {q : Parameter}

theorem SameKind.plain {e e' : Expr} (h : SameKind e e') : e.Plain ∧ e'.Plain := by
  cases h <;> exact ⟨trivial, trivial⟩

theorem free_chainBase {e : Expr} : Free p e.chainBase → Free p e := by
  induction e using chainBase.induct with
  | case1 e m ih => exact fun h => (free_plain (by trivial)).mpr ⟨e, by simp [children], ih h⟩
  | case2 e hmember =>
      rw [chainBase]
      · exact id
      · exact hmember

theorem Free.mem_parameters {e : Expr} (h : Free p e) : p ∈ e.parameters := by
  induction h with
  | reference => exact named_subset_parameters _ List.mem_cons_self
  | lambda _ _ ih => exact parameters_subset_of_child (by simp [children]) ih
  | child _ hc _ ih => exact parameters_subset_of_child hc ih

theorem DistinctNumbers.child {e x : Expr} (h : e.DistinctNumbers) (hx : x ∈ e.children) :
    x.DistinctNumbers :=
  fun p hp q hq => h p (parameters_subset_of_child hx hp) q (parameters_subset_of_child hx hq)

theorem DistinctNumbers.chainBase {e : Expr} (h : e.DistinctNumbers) :
    e.chainBase.DistinctNumbers :=
  fun p hp q hq => h p (e.parameters_chainBase hp) q (e.parameters_chainBase hq)

mutual

/-- A parameter free in the recast expression is the replacement of one free in the given one. -/
theorem Rebinds.free (hclosed : c.CustomsClosed) : ∀ {e e' : Expr}, Rebinds c ρ e e' →
    e.DistinctNumbers → Free q e' → ∃ p, Free p e ∧ ρ p = q
  | _, _, .param, _, h => ⟨_, .reference, free_param.mp h⟩
  | .lambda ps body t, _, .lambda hbody, he, h => by
      obtain ⟨hfree, hps⟩ := free_lambda.mp h
      obtain ⟨p, hp, rfl⟩ := hbody.free hclosed (he.child (by simp [children])) hfree
      refine ⟨p, free_lambda.mpr ⟨hp, fun p' hp' hid => ?_⟩, rfl⟩
      -- Otherwise the lambda binds `p`, and so its replacement.
      obtain rfl := he p' (named_subset_parameters _ hp') p
        (parameters_subset_of_child (by simp [children]) hp.mem_parameters) hid
      exact hps _ (List.mem_map_of_mem hp') rfl
  | _, _, .member hbase hbuilds, he, h => by
      obtain ⟨p, hp, hq⟩ := hbase.free hclosed he.chainBase (hbuilds.free hclosed h)
      exact ⟨p, free_chainBase hp, hq⟩
  | _, _, .folded, _, h => by
      obtain ⟨_, hc, -⟩ := (free_plain (by trivial)).mp h
      cases hc
  | _, _, .convert hinner, he, h => by
      obtain ⟨_, hc, h⟩ := (free_plain (by trivial)).mp h
      exact hinner.free hclosed he (List.mem_singleton.mp hc ▸ h)
  | .call target m args, _, .call htarget hargs, he, h => by
      obtain ⟨x, hx, h⟩ := (free_plain (by trivial)).mp h
      rcases List.mem_append.mp hx with hx | hx
      · obtain ⟨y, hy, p, hp, hq⟩ :=
          htarget.free hclosed (fun y hy => he.child (List.mem_append_left _ hy)) x hx h
        exact ⟨p, (free_plain (by trivial)).mpr ⟨y, List.mem_append_left _ hy, hp⟩, hq⟩
      · obtain ⟨y, hy, p, hp, hq⟩ := hargs.free hclosed
          (fun y hy => he.child (List.mem_append_right _ (List.mem_of_mem_take hy))) x hx h
        exact ⟨p, (free_plain (by trivial)).mpr
          ⟨y, List.mem_append_right _ (List.mem_of_mem_take hy), hp⟩, hq⟩
  | _, _, .node hkind hparts, he, h => by
      obtain ⟨x, hx, h⟩ := (free_plain hkind.plain.2).mp h
      obtain ⟨y, hy, p, hp, hq⟩ := hparts.free hclosed (fun _ hy => he.child hy) x hx h
      exact ⟨p, (free_plain hkind.plain.1).mpr ⟨y, hy, hp⟩, hq⟩

theorem RebindsAll.free (hclosed : c.CustomsClosed) : ∀ {es es' : List Expr},
    RebindsAll c ρ es es' → (∀ e ∈ es, e.DistinctNumbers) → ∀ e' ∈ es', Free q e' →
      ∃ e ∈ es, ∃ p, Free p e ∧ ρ p = q
  | _, _, .nil, _, _, hmem, _ => by cases hmem
  | _, _, .cons h hs, hes, e', hmem, hfree => by
      rcases List.mem_cons.mp hmem with hsame | hmem
      · obtain ⟨p, hp, hq⟩ := h.free hclosed (hes _ List.mem_cons_self) (hsame ▸ hfree)
        exact ⟨_, List.mem_cons_self, p, hp, hq⟩
      · obtain ⟨e, he, p, hp, hq⟩ :=
          hs.free hclosed (fun e he => hes e (List.mem_cons_of_mem _ he)) e' hmem hfree
        exact ⟨e, List.mem_cons_of_mem _ he, p, hp, hq⟩

end

theorem RebindsAll.length_eq : ∀ {es es' : List Expr}, RebindsAll c ρ es es' →
    es'.length = es.length
  | _, _, .nil => rfl
  | _, _, .cons _ hs => congrArg (· + 1) hs.length_eq

mutual

/-- Parameters are replacements, or come from custom lambdas. -/
theorem Rebinds.parameters : ∀ {e e' : Expr}, Rebinds c ρ e e' → q ∈ e'.parameters →
    (∃ p ∈ e.parameters, ρ p = q) ∨ ∃ custom, c.IsCustom custom ∧ q ∈ custom.parameters
  | _, _, .param, h => .inl ⟨_, named_subset_parameters _ List.mem_cons_self,
      (List.mem_singleton.mp h).symm⟩
  | .lambda ps body t, _, .lambda hbody, h => by
      rcases mem_parameters_iff.mp h with h | ⟨_, hx, h⟩
      · obtain ⟨p, hp, rfl⟩ := List.mem_map.mp h
        exact .inl ⟨p, named_subset_parameters _ hp, rfl⟩
      · refine (hbody.parameters (List.mem_singleton.mp hx ▸ h)).imp_left fun ⟨p, hp, hq⟩ => ?_
        exact ⟨p, parameters_subset_of_child (by simp [children]) hp, hq⟩
  | _, _, .member hbase hbuilds, h => by
      rcases hbuilds.parameters h with h | h
      · exact hbase.parameters h |>.imp_left fun ⟨p, hp, hq⟩ => ⟨p, parameters_chainBase _ hp, hq⟩
      · exact .inr h
  | _, _, .folded, h => by cases h
  | _, _, .convert hinner, h => by
      rcases mem_parameters_iff.mp h with h | ⟨_, hx, h⟩
      · cases h
      · exact hinner.parameters (List.mem_singleton.mp hx ▸ h)
  | .call target m args, _, .call htarget hargs, h => by
      rcases mem_parameters_iff.mp h with h | ⟨x, hx, h⟩
      · cases h
      · rcases List.mem_append.mp hx with hx | hx
        · refine (htarget.parameters x hx h).imp_left fun ⟨y, hy, p, hp, hq⟩ => ?_
          exact ⟨p, parameters_subset_of_child (List.mem_append_left _ hy) hp, hq⟩
        · refine (hargs.parameters x hx h).imp_left fun ⟨y, hy, p, hp, hq⟩ => ?_
          exact ⟨p, parameters_subset_of_child
            (List.mem_append_right _ (List.mem_of_mem_take hy)) hp, hq⟩
  | _, _, .node hkind hparts, h => by
      rcases mem_parameters_iff.mp h with h | ⟨x, hx, h⟩
      · rw [named_plain hkind.plain.2] at h
        cases h
      · refine (hparts.parameters x hx h).imp_left fun ⟨y, hy, p, hp, hq⟩ => ?_
        exact ⟨p, parameters_subset_of_child hy hp, hq⟩

theorem RebindsAll.parameters : ∀ {es es' : List Expr}, RebindsAll c ρ es es' →
    ∀ e' ∈ es', q ∈ e'.parameters →
      (∃ e ∈ es, ∃ p ∈ e.parameters, ρ p = q) ∨ ∃ custom, c.IsCustom custom ∧ q ∈ custom.parameters
  | _, _, .nil, _, hmem, _ => by cases hmem
  | _, _, .cons h hs, e', hmem, hq => by
      rcases List.mem_cons.mp hmem with hsame | hmem
      · refine (h.parameters (hsame ▸ hq)).imp_left fun ⟨p, hp, hq⟩ => ?_
        exact ⟨_, List.mem_cons_self, p, hp, hq⟩
      · refine (hs.parameters e' hmem hq).imp_left fun ⟨e, he, p, hp, hq⟩ => ?_
        exact ⟨e, List.mem_cons_of_mem _ he, p, hp, hq⟩

end

end Expr

end Recast
