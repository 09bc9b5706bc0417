import Recast.Proofs.NextStep
import Recast.Proofs.Rebinding
import Recast.Proofs.Registration
import Recast.Proofs.Replacing
import Recast.Proofs.Typing

/-! # Recasting keeps what is bound

Whatever the table says, a recast expression is the given one with one replacement for
every parameter (`Recaster.recastWithin_rebinding`, one lemma for each kind of node).
With custom lambdas that are closed it binds alike (`Recaster.recast_preservesBinding`).
-/

namespace Recast

/-! ## §1  Steps of a path -/

namespace Configuration

variable {c : Configuration}

/-- The custom lambdas among the steps are those of the configuration. -/
def CustomSteps (c : Configuration) (steps : List DataStep) : Prop :=
  ∀ custom, .custom custom ∈ steps → c.IsCustom custom

theorem isCustom_of_memberRule? {m : Mapping} {name : String} {rule : MemberRule} {custom : Expr}
    (hm : m ∈ c.maps) (hrule : c.memberRule? m name = some rule) (h : rule.custom = some custom) :
    c.IsCustom custom := by
  rw [memberRule?, Option.or_eq_some_iff] at hrule
  rcases hrule with hrule | ⟨-, hrule⟩
  · obtain ⟨m', hm', hask⟩ := searchPending_mem
      (fun x hx => by rw [List.mem_singleton.mp hx]; exact hm) hrule
    have hown := (Option.filter_eq_some_iff.mp hask).1
    exact ⟨m', hm', .inl ⟨rule, (Mapping.ownRule?_mem hown).1, h⟩⟩
  · exact ⟨m, hm, .inl ⟨rule, (Mapping.ownRule?_mem hrule).1, h⟩⟩

theorem isCustom_of_pathRule? {m : Mapping} {path : List String} {rule : PathRule}
    (hm : m ∈ c.maps) (hrule : c.pathRule? m path = some rule) : c.IsCustom rule.custom := by
  obtain ⟨m', hm', hask⟩ := searchPending_mem
    (fun x hx => by rw [List.mem_singleton.mp hx]; exact hm) hrule
  exact ⟨m', hm', .inr ⟨rule, List.mem_of_find?_eq_some hask, rfl⟩⟩

theorem CustomSteps.appendMembers {steps : List DataStep} (h : c.CustomSteps steps)
    (ms : List Member) : c.CustomSteps (DataStep.appendMembers steps ms) := by
  intro custom hmem
  unfold DataStep.appendMembers at hmem
  split at hmem
  · exact h custom hmem
  · split at hmem
    · rcases List.mem_append.mp hmem with hmem | hmem
      · exact h custom ((List.dropLast_sublist steps).subset hmem)
      · cases List.mem_singleton.mp hmem
    · rcases List.mem_append.mp hmem with hmem | hmem
      · exact h custom hmem
      · cases List.mem_singleton.mp hmem

theorem CustomSteps.appendStep {steps : List DataStep} {step : DataStep} (h : c.CustomSteps steps)
    (hstep : ∀ custom, step = .custom custom → c.IsCustom custom) :
    c.CustomSteps (appendStep steps step) := by
  cases step with
  | members ms => exact h.appendMembers ms
  | custom lambda =>
      intro custom hmem
      rcases List.mem_append.mp hmem with hmem | hmem
      · exact h custom hmem
      · exact hstep custom (List.mem_singleton.mp hmem).symm

theorem advance_custom {name : String} {model data : Ty} {rest : List String} {a : Advance}
    {t t' : TypeTable} {custom : Expr} (h : c.Advances model data name rest t a t')
    (hstep : a.step = .custom custom) : c.IsCustom custom := by
  cases h with
  | alike => cases hstep
  | members => cases hstep
  | custom _ hmap _ _ hown _ hcustom =>
      cases hstep
      exact isCustom_of_memberRule? (mapping?_mem hmap).1 hown hcustom
  | path _ hmap hlongest =>
      cases hstep
      obtain ⟨i, -, hi⟩ := List.exists_of_findSome?_eq_some hlongest
      obtain ⟨_, hpath, heq⟩ := Option.map_eq_some_iff.mp hi
      cases heq
      exact isCustom_of_pathRule? (mapping?_mem hmap).1 hpath

theorem followPath_customs {limit budget : Nat} {fullPath : String} {model data : Ty}
    {path : List String} {steps steps' : List DataStep} {t t' : TypeTable}
    (h : Returns (c.followPath limit fullPath budget model data path steps) t steps' t')
    (hsteps : c.CustomSteps steps) : c.CustomSteps steps' := by
  obtain ⟨_, hsteps'⟩ := followPath_ends (P := fun _ steps => c.CustomSteps steps)
    (fun ty _ ms _ _ hsteps => ⟨ty, hsteps.appendMembers ms⟩)
    (fun _ _ _ _ _ _ _ _ ha hsteps => hsteps.appendStep fun _ => advance_custom ha) h hsteps
  exact hsteps'

end Configuration

namespace Recaster

variable {w : Recaster}

theorem select_builds {c : Configuration} {base : Expr} : ∀ {ms : List Member} {e : Expr},
    Expr.Builds c base e → Expr.Builds c base (e.select ms)
  | [], _, h => h
  | m :: ms, e, h => by
      rw [Expr.select, List.foldl_cons]
      exact select_builds h.member

theorem mkConvert_builds {r : Registry} {c : Configuration} {base e e' : Expr} {t : Ty}
    (h : r.mkConvert e t = .ok e') (he : Expr.Builds c base e) : Expr.Builds c base e' := by
  rw [Registry.mkConversion_eq_ok h]
  exact he.convert

theorem betaReduce_builds {r : Registry} {c : Configuration} {base custom e e' : Expr}
    (hcustom : c.IsCustom custom) (h : r.betaReduce custom e = .ok e')
    (he : Expr.Builds c base e) : Expr.Builds c base e' := by
  unfold Registry.betaReduce at h
  split at h
  · cases h
  · rename_i q body t hparts
    simp only [Checked.bind_eq_ok, Checked.pure_eq_ok] at h
    obtain ⟨fitted, hfitted, rfl⟩ := h
    refine .custom hcustom hparts ?_
    unfold Registry.fitArgument at hfitted
    split at hfitted
    · cases hfitted
      exact he
    · exact mkConvert_builds hfitted he
  · cases h

theorem mkPath_builds {r : Registry} {c : Configuration} {base : Expr} :
    ∀ {names : List String} {e e' : Expr},
      r.mkPath e names = .ok e' → Expr.Builds c base e → Expr.Builds c base e'
  | [], _, _, h, he => by
      cases h
      exact he
  | name :: names, e, e', h, he => by
      simp only [Registry.mkPath, Checked.bind_eq_ok] at h
      obtain ⟨next, hnext, hrest⟩ := h
      obtain ⟨m, -, rfl⟩ := Registry.mkMember_eq_ok.mp hnext
      exact mkPath_builds hrest he.member

theorem singleChain_builds {r : Registry} {c : Configuration} {base e e' : Expr}
    (h : r.singleChain e base = .ok e') (he : Expr.Builds c base e) : Expr.Builds c base e' := by
  unfold Registry.singleChain at h
  split at h
  · cases h
    exact he
  · simp only [Checked.bind_eq_ok] at h
    obtain ⟨chain, -, h⟩ := h
    exact mkPath_builds h .base

theorem walk_builds {base : Expr} : ∀ {steps : List DataStep} {e e' : Expr},
    w.walk e steps = .ok e' → w.config.CustomSteps steps → Expr.Builds w.config base e →
      Expr.Builds w.config base e'
  | [], _, _, h, _, hbuilds => by
      cases h
      exact hbuilds
  | .members ms :: steps, e, e', h, hsteps, hbuilds =>
      walk_builds (e := e.select ms) h
        (fun custom hmem => hsteps custom (List.mem_cons_of_mem _ hmem)) (select_builds hbuilds)
  | .custom lambda :: steps, e, e', h, hsteps, hbuilds => by
      simp only [walk, Checked.bind_eq_ok] at h
      obtain ⟨reached, hreached, h⟩ := h
      exact walk_builds h (fun custom hmem => hsteps custom (List.mem_cons_of_mem _ hmem))
        (betaReduce_builds (hsteps lambda List.mem_cons_self) hreached hbuilds)

theorem settle_builds {base walked e : Expr} {model : Ty} {custom : Bool} {s s' : RecastState}
    (h : Returns (w.settle model custom walked) s e s') (hwalked : Expr.Builds w.config base walked) :
    Expr.Builds w.config base e := by
  unfold settle at h
  split at h
  · exact mkConvert_builds (RecastM.returns_ofChecked.mp h).1 hwalked
  · simp only [returns_bind, returns_pure] at h
    obtain ⟨_, _, -, rfl, -⟩ := h
    exact hwalked

end Recaster

theorem Outcome.on_of_isKept {o : Outcome} (h : o.isKept = true) (e : Expr) : o.on e = e := by
  cases o with
  | kept => rfl
  | made => cases h

theorem returns_made {x : Checked Expr} {s s' : RecastState} {o : Outcome} :
    Returns (Outcome.made <$> RecastM.ofChecked x : RecastM Outcome) s o s' ↔
      s = s' ∧ ∃ e, x = .ok e ∧ o = .made e := by
  simp only [returns_map, RecastM.returns_ofChecked]
  constructor
  · rintro ⟨e, ⟨hx, rfl⟩, rfl⟩
    exact ⟨rfl, e, hx, rfl⟩
  · rintro ⟨rfl, e, hx, rfl⟩
    exact ⟨e, ⟨hx, rfl⟩, rfl⟩

/-- A node is kept, or made by a check that it passes. -/
theorem returns_keptOrMade {kept : Prop} [Decidable kept] {x : Checked Expr} {s s' : RecastState}
    {o : Outcome} :
    Returns (if kept then pure .kept else Outcome.made <$> RecastM.ofChecked x : RecastM Outcome)
        s o s' ↔
      s = s' ∧ (kept ∧ o = .kept ∨ ¬ kept ∧ ∃ e, x = .ok e ∧ o = .made e) := by
  by_cases hkept : kept
  · simp [hkept, and_comm, eq_comm]
  · rw [if_neg hkept, returns_made]
    simp only [hkept, false_and, false_or, not_false_eq_true, true_and]

namespace Recaster

/-! ## §2  Nodes -/

/-- What `ρ` says of the parameters replaced so far. -/
def Extends (ρ : Parameter → Parameter) (s : RecastState) : Prop :=
  ∀ p q, s.replacements.get? p = some q → ρ p = q

variable {w : Recaster} {ρ : Parameter → Parameter} {α : Type} {s s' : RecastState}

theorem Extends.before {x : RecastM α} {a : α} (hρ : Extends ρ s') (h : Returns x s a s')
    (hx : Evolves KeepsReplacements x) : Extends ρ s :=
  fun p q hq => hρ p q (hx.of_returns h p q hq)

/-- A way to recast the nodes below that puts replacements in the place of parameters. -/
structure Rebinding (w : Recaster) (ρ : Parameter → Parameter)
    (recast : Expr → RecastM Outcome) : Prop where
  keeps : ∀ e : Expr, e.Within (fun _ => True) → Evolves KeepsReplacements (recast e)
  rebinds : ∀ {e o s s'}, Returns (recast e) s o s' → Extends ρ s' →
    Expr.Rebinds w.config ρ e (o.on e)

/-! ### Parameters -/

theorem replace_extends {p p' : Parameter} (h : Returns (w.replace p) s p' s')
    (hρ : Extends ρ s') : ρ p = p' := by
  obtain ⟨b', fresh', hrun, rfl⟩ := returns_replace.mp h
  exact hρ p p' (Replacements.get?_replace hrun)

theorem replaceAll_extends : ∀ {ps ps' : List Parameter} {s s' : RecastState},
    Returns (w.replaceAll ps) s ps' s' → Extends ρ s' → ps' = ps.map ρ
  | [], _, _, _, h, _ => (returns_pure.mp h).1.symm
  | p :: ps, ps', s, s', h, hρ => by
      simp only [replaceAll, returns_bind, returns_pure] at h
      obtain ⟨p', s₁, hp, rest, s₂, hps, rfl, rfl⟩ := h
      have hkeeps := w.respects_keeping.replaceAll ps fun _ _ => trivial
      rw [List.map_cons, replace_extends hp (hρ.before hps hkeeps), replaceAll_extends hps hρ]

/-! ### What some steps make -/

/-- A chain is its members on its base. -/
theorem chain_builds {c : Configuration} (e : Expr) : Expr.Builds c e.chainBase e := by
  induction e using Expr.chainBase.induct with
  | case1 e m ih => exact ih.member
  | case2 e hmember =>
      rw [Expr.chainBase]
      · exact .base
      · exact hmember

theorem constantAs_eq {v : Value} {source target : Ty} {e : Expr}
    (h : Returns (w.constantAs v source target) s e s') : ∃ v', e = .const v' target ∧ s' = s := by
  unfold constantAs at h
  split at h
  · obtain ⟨rfl, rfl⟩ := returns_pure.mp h
    exact ⟨_, rfl, rfl⟩
  · exact absurd h returns_throw

theorem rebuildUnary_eq {op : UnaryOp} {e e' : Expr} {t target : Ty}
    (h : Returns (w.rebuildUnary op e t target) s e' s') : ∃ t', e' = .unary op e t' := by
  unfold rebuildUnary at h
  split at h
  · split at h
    · exact ⟨target, (returns_pure.mp h).1.symm⟩
    · obtain ⟨t', -, rfl⟩ := returns_map.mp h
      exact ⟨t', rfl⟩
  · split at h
    · exact ⟨target, Registry.mkConversion_eq_ok (RecastM.returns_ofChecked.mp h).1⟩
    · rename_i hop
      exact Registry.mkUnary_eq_ok (by simpa using hop) (RecastM.returns_ofChecked.mp h).1

/-- Arguments are fitted by conversions, as many as there are parameters. -/
theorem fitArguments_rebinds : ∀ {es es' es'' : List Expr} {params : List Ty},
    Expr.RebindsAll w.config ρ es es' → w.fitArguments es' params = .ok es'' →
      ∃ n, Expr.RebindsAll w.config ρ (es.take n) es''
  | _, _, _, _, .nil, h => by
      cases h
      exact ⟨0, .nil⟩
  | _, _, _, [], .cons _ _, h => by
      cases h
      exact ⟨0, .nil⟩
  | _, _, _, p :: params, .cons h hs, hfit => by
      simp only [fitArguments, Checked.bind_eq_ok, Checked.pure_eq_ok] at hfit
      obtain ⟨fitted, hfitted, rest, hrest, rfl⟩ := hfit
      obtain ⟨n, hn⟩ := fitArguments_rebinds hs hrest
      refine ⟨n + 1, .cons ?_ hn⟩
      unfold fitArgument at hfitted
      split at hfitted
      · rw [Registry.mkConversion_eq_ok hfitted]
        exact h.convert
      · cases hfitted
        exact h

variable {self : Expr → RecastM Outcome} (hself : Rebinding w ρ self)
include hself

/-! ### Lists of nodes -/

theorem all_rebinds : ∀ {es es' : List Expr} {kept : Bool} {s s' : RecastState},
    Returns (all self es) s (es', kept) s' → Extends ρ s' →
      Expr.RebindsAll w.config ρ es es' ∧ (kept = true → es' = es)
  | [], es', kept, s, s', h, _ => by
      simp only [all, returns_pure, Prod.mk.injEq] at h
      obtain ⟨⟨rfl, rfl⟩, -⟩ := h
      exact ⟨.nil, fun _ => rfl⟩
  | e :: es, es', kept, s, s', h, hρ => by
      simp only [all, returns_bind, returns_pure, Prod.mk.injEq] at h
      obtain ⟨o, s₁, ho, ⟨rest, keptRest⟩, s₂, hrest, ⟨rfl, rfl⟩, rfl⟩ := h
      have hkeeps := w.respects_keeping.all hself.keeps es fun _ _ _ _ => trivial
      obtain ⟨hrebinds, hsame⟩ := all_rebinds hrest hρ
      refine ⟨.cons (hself.rebinds ho (hρ.before hrest hkeeps)) hrebinds, fun hkept => ?_⟩
      rw [Bool.and_eq_true] at hkept
      rw [Outcome.on_of_isKept hkept.1, hsame hkept.2]

theorem optional_rebinds {e? e'? : Option Expr} {kept : Bool}
    (h : Returns (optional self e?) s (e'?, kept) s') (hρ : Extends ρ s') :
    Expr.RebindsAll w.config ρ e?.toList e'?.toList ∧ (kept = true → e'? = e?) := by
  cases e? with
  | none =>
      simp only [optional, returns_pure, Prod.mk.injEq] at h
      obtain ⟨⟨rfl, rfl⟩, -⟩ := h
      exact ⟨.nil, fun _ => rfl⟩
  | some e =>
      simp only [optional, returns_bind, returns_pure, Prod.mk.injEq] at h
      obtain ⟨o, s₁, ho, ⟨rfl, rfl⟩, rfl⟩ := h
      exact ⟨.cons (hself.rebinds ho hρ) .nil, fun hkept => by rw [Outcome.on_of_isKept hkept]⟩

theorem arguments_rebinds : ∀ {es es' : List Expr} {kept : Bool} {s s' : RecastState},
    Returns (w.arguments self es) s (es', kept) s' → Extends ρ s' →
      Expr.RebindsAll w.config ρ es es' ∧ (kept = true → es' = es)
  | [], es', kept, s, s', h, _ => by
      simp only [arguments, returns_pure, Prod.mk.injEq] at h
      obtain ⟨⟨rfl, rfl⟩, -⟩ := h
      exact ⟨.nil, fun _ => rfl⟩
  | e :: es, es', kept, s, s', h, hρ => by
      simp only [arguments, returns_bind, returns_pure, Prod.mk.injEq] at h
      obtain ⟨o, s₁, ho, _, s₂, hrelate, ⟨rest, keptRest⟩, s₃, hrest, ⟨rfl, rfl⟩, rfl⟩ := h
      have hkeeps := w.respects_keeping.arguments hself.keeps es fun _ _ _ _ => trivial
      have hρ₂ := hρ.before hrest hkeeps
      obtain ⟨hrebinds, hsame⟩ := arguments_rebinds hrest hρ
      refine ⟨.cons (hself.rebinds ho (hρ₂.before hrelate (w.respects_keeping.relate _ _))) hrebinds,
        fun hkept => ?_⟩
      rw [Bool.and_eq_true] at hkept
      rw [Outcome.on_of_isKept hkept.1, hsame hkept.2]

/-! ### Kinds of nodes -/

theorem member_rebinds {e : Expr} {m : Member} {o : Outcome}
    (h : Returns (w.member self (.member e m)) s o s') (hρ : Extends ρ s') :
    Expr.Rebinds w.config ρ (.member e m) (o.on (.member e m)) := by
  simp only [member, returns_bind] at h
  obtain ⟨ob, s₁, hbase, steps, s₂, hsteps, h⟩ := h
  have hcustoms : w.config.CustomSteps steps := by
    obtain ⟨table, hpath, -⟩ := RecastM.returns_onTable.mp hsteps
    exact Configuration.followPath_customs hpath fun _ hmem => by cases hmem
  -- Later steps only add replacements, so `ρ` has those there were after the base.
  have hρ₁ : Extends ρ s₂ → Extends ρ s₁ := fun hρ₂ =>
    hρ₂.before hsteps (w.respects_keeping.dataPath _ _ _ _)
  split at h
  · rename_i hkept
    obtain ⟨rfl, rfl⟩ := returns_pure.mp h
    have hrebinds := hself.rebinds hbase (hρ₁ hρ)
    simp only [Bool.and_eq_true] at hkept
    rw [Outcome.on_of_isKept hkept.1.2] at hrebinds
    exact .member hrebinds (chain_builds _)
  · simp only [returns_bind, RecastM.returns_ofChecked] at h
    obtain ⟨walked, _, ⟨hwalk, rfl⟩, rebuilt, s₃, hsettle, h⟩ := h
    have hbuilds := settle_builds hsettle (walk_builds hwalk hcustoms .base)
    have hs : s' = s₃ ∧ ∃ e', o = .made e' ∧
        Expr.Builds w.config (ob.on (Expr.member e m).chainBase) e' := by
      split at h
      · obtain ⟨rfl, chain, hmade, rfl⟩ := returns_made.mp h
        exact ⟨rfl, chain, rfl, singleChain_builds hmade hbuilds⟩
      · obtain ⟨rfl, rfl⟩ := returns_pure.mp h
        exact ⟨rfl, rebuilt, rfl, hbuilds⟩
    obtain ⟨rfl, e', rfl, hbuilds⟩ := hs
    have hρ₂ := hρ.before hsettle (w.respects_keeping.settle _ _ _)
    exact .member (hself.rebinds hbase (hρ₁ hρ₂)) hbuilds

theorem lambda_rebinds {params : List Parameter} {body : Expr} {t : Ty} {o : Outcome}
    (h : Returns (w.lambda self params body) s o s') (hρ : Extends ρ s') :
    Expr.Rebinds w.config ρ (.lambda params body t) (o.on (.lambda params body t)) := by
  simp only [lambda, returns_bind] at h
  obtain ⟨params', s₁, hparams, ob, s₂, hbody, h⟩ := h
  have hsame : s' = s₂ := by
    split at h <;> exact (returns_pure.mp h).2.symm
  subst hsame
  have hps := replaceAll_extends hparams (hρ.before hbody (hself.keeps body fun _ _ => trivial))
  have hrebinds := hself.rebinds hbody hρ
  split at h
  · rename_i hkept
    obtain ⟨rfl, -⟩ := returns_pure.mp h
    rw [Bool.and_eq_true, beq_iff_eq] at hkept
    rw [Outcome.on_of_isKept hkept.1] at hrebinds
    have hlambda : Expr.Rebinds w.config ρ (.lambda params body t) (.lambda (params.map ρ) body t) :=
      .lambda hrebinds
    -- Kept are the parameters that stand for themselves.
    rwa [← hps, hkept.2] at hlambda
  · obtain ⟨rfl, -⟩ := returns_pure.mp h
    rw [hps]
    exact .lambda hrebinds

theorem operand_rebinds {op : UnaryOp} {e : Expr} {t : Ty} {o : Outcome}
    (h : Returns (w.operand self op e t) s o s') (hρ : Extends ρ s') :
    Expr.Rebinds w.config ρ (.unary op e t) (o.on (.unary op e t)) := by
  simp only [Recaster.operand, returns_bind] at h
  obtain ⟨oe, s₁, he, h⟩ := h
  have hunary : ∀ {e' t'}, Expr.Rebinds w.config ρ e e' →
      Expr.Rebinds w.config ρ (.unary op e t) (.unary op e' t') := fun he =>
    .node .unary (.cons he .nil)
  split at h
  · rename_i hop
    subst hop
    obtain ⟨rfl, hchosen⟩ := returns_keptOrMade.mp h
    have hrebinds := hself.rebinds he hρ
    rcases hchosen with ⟨hkept, rfl⟩ | ⟨-, quoted, hmade, rfl⟩
    · rw [Outcome.on_of_isKept hkept] at hrebinds
      exact hunary hrebinds
    · rw [Registry.mkQuote_eq_ok hmade]
      exact hunary hrebinds
  · obtain ⟨target, s₂, htarget, h⟩ := returns_bind.mp h
    split at h
    · rename_i hkept
      obtain ⟨rfl, rfl⟩ := returns_pure.mp h
      have hrebinds := hself.rebinds he
        (hρ.before htarget (w.respects_keeping.conversionTarget _ _))
      rw [Outcome.on_of_isKept (by simp_all)] at hrebinds
      exact hunary hrebinds
    · obtain ⟨rebuilt, hrebuilt, rfl⟩ := returns_map.mp h
      have hρ₁ := (hρ.before hrebuilt (w.respects_keeping.rebuildUnary _ _ _ _)).before htarget
        (w.respects_keeping.conversionTarget _ _)
      obtain ⟨t', rfl⟩ := rebuildUnary_eq hrebuilt
      exact hunary (hself.rebinds he hρ₁)

theorem unary_rebinds {op : UnaryOp} {e : Expr} {t : Ty} {o : Outcome}
    (h : Returns (w.unary self op e t) s o s') (hρ : Extends ρ s') :
    Expr.Rebinds w.config ρ (.unary op e t) (o.on (.unary op e t)) := by
  unfold unary at h
  split at h
  · rename_i v u hconstant
    obtain ⟨target, s₁, -, h⟩ := returns_bind.mp h
    split at h
    · obtain ⟨e', hconst, rfl⟩ := returns_map.mp h
      obtain ⟨v', rfl, -⟩ := constantAs_eq hconst
      obtain rfl : e = .const v u := by
        unfold convertedConstant? at hconstant
        split at hconstant <;> simp_all
      exact .folded
    · exact operand_rebinds hself h hρ
  · exact operand_rebinds hself h hρ

theorem operands_rebinds {left right : Expr} {leftDone : Option Outcome} {l r : Outcome}
    (h : Returns (operands self left right leftDone) s (l, r) s') (hρ : Extends ρ s')
    (hdone : ∀ o ∈ leftDone, Extends ρ s → Expr.Rebinds w.config ρ left (o.on left)) :
    Expr.Rebinds w.config ρ left (l.on left) ∧ Expr.Rebinds w.config ρ right (r.on right) := by
  have hkeeps := fun e => hself.keeps e fun _ _ => trivial
  cases leftDone with
  | some done =>
      simp only [operands, returns_bind, returns_pure, Prod.mk.injEq] at h
      obtain ⟨r', s₁, hright, ⟨rfl, rfl⟩, rfl⟩ := h
      exact ⟨hdone _ rfl (hρ.before hright (hkeeps right)), hself.rebinds hright hρ⟩
  | none =>
      simp only [operands] at h
      split at h
      · simp only [returns_bind, returns_pure, Prod.mk.injEq] at h
        obtain ⟨r', s₁, hright, l', s₂, hleft, ⟨rfl, rfl⟩, rfl⟩ := h
        exact ⟨hself.rebinds hleft hρ, hself.rebinds hright (hρ.before hleft (hkeeps left))⟩
      · simp only [returns_bind, returns_pure, Prod.mk.injEq] at h
        obtain ⟨l', s₁, hleft, r', s₂, hright, ⟨rfl, rfl⟩, rfl⟩ := h
        exact ⟨hself.rebinds hleft (hρ.before hright (hkeeps right)), hself.rebinds hright hρ⟩

theorem binaryNode_rebinds {op : BinaryOp} {left right : Expr} {conversion : Option Expr} {t : Ty}
    {leftDone : Option Outcome} {o : Outcome}
    (h : Returns (w.binaryNode self op left right conversion leftDone) s o s') (hρ : Extends ρ s')
    (hdone : ∀ o ∈ leftDone, Extends ρ s → Expr.Rebinds w.config ρ left (o.on left)) :
    Expr.Rebinds w.config ρ (.binary op left right conversion t)
      (o.on (.binary op left right conversion t)) := by
  simp only [binaryNode, returns_bind] at h
  obtain ⟨⟨l, r⟩, s₁, hoperands, ⟨conversion', conversionKept⟩, s₂, hconversion, h⟩ := h
  obtain ⟨rfl, hchosen⟩ := returns_keptOrMade.mp h
  obtain ⟨hc, hsame⟩ := optional_rebinds hself hconversion hρ
  have hρ₁ := hρ.before hconversion
    (w.respects_keeping.optional hself.keeps _ fun _ _ _ _ => trivial)
  obtain ⟨hl, hr⟩ := operands_rebinds hself hoperands hρ₁ hdone
  rcases hchosen with ⟨hkept, rfl⟩ | ⟨-, e', hmade, rfl⟩
  · simp only [Bool.and_eq_true] at hkept
    rw [Outcome.on_of_isKept hkept.1.1] at hl
    rw [Outcome.on_of_isKept hkept.1.2] at hr
    rw [hsame hkept.2] at hc
    exact .node .binary (.cons hl (.cons hr hc))
  · obtain ⟨t', -, rfl⟩ := Registry.mkBinary_eq_ok.mp hmade
    exact .node .binary (.cons hl (.cons hr hc))

/-- Along the left operands the outcome of one node is the operand of the next. -/
theorem spine_rebinds : ∀ {e : Expr} {o : Outcome} {s s' : RecastState},
    Returns (w.spine self e) s o s' → Extends ρ s' → Expr.Rebinds w.config ρ e (o.on e) := by
  intro e
  induction e using Recaster.spine.induct with
  | case1 op left right conversion t hleft ih =>
      intro o s s' h hρ
      rw [spine, if_pos hleft] at h
      obtain ⟨l, s₁, hl, h⟩ := returns_bind.mp h
      refine binaryNode_rebinds hself h hρ ?_
      rintro o' ⟨⟩ hρ₁
      exact ih hl hρ₁
  | case2 op left right conversion t hleft =>
      intro o s s' h hρ
      rw [spine, if_neg hleft] at h
      exact binaryNode_rebinds hself h hρ (by simp)
  | case3 e hbinary =>
      intro o s s' h hρ
      rw [spine] at h
      · exact hself.rebinds h hρ
      · exact hbinary

theorem call_rebinds {target : Option Expr} {m : Method} {args : List Expr} {o : Outcome}
    (h : Returns (w.call self target m args) s o s') (hρ : Extends ρ s') :
    Expr.Rebinds w.config ρ (.call target m args) (o.on (.call target m args)) := by
  simp only [call, returns_bind] at h
  obtain ⟨⟨target', targetKept⟩, s₁, htarget, ⟨args', argsKept⟩, s₂, hargs, h⟩ := h
  dsimp only at h
  have hparts : Extends ρ s₂ → (Expr.RebindsAll w.config ρ target.toList target'.toList ∧
      (targetKept = true → target' = target)) ∧
      Expr.RebindsAll w.config ρ args args' ∧ (argsKept = true → args' = args) := fun hρ₂ =>
    ⟨optional_rebinds hself htarget (hρ₂.before hargs
        (w.respects_keeping.arguments hself.keeps args fun _ _ _ _ => trivial)),
      arguments_rebinds hself hargs hρ₂⟩
  split at h
  · rename_i hkept
    obtain ⟨rfl, rfl⟩ := returns_pure.mp h
    obtain ⟨⟨ht, htsame⟩, ha, hasame⟩ := hparts hρ
    rw [Bool.and_eq_true] at hkept
    rw [htsame hkept.1] at ht
    rw [hasame hkept.2] at ha
    -- A call that is kept has all of its arguments, a new one those there is a parameter for.
    exact .call (n := args.length) ht (by rwa [List.take_length])
  · simp only [returns_bind, RecastM.returns_ofChecked] at h
    obtain ⟨m', s₃, hclose, fitted, _, ⟨hfitted, rfl⟩, h⟩ := h
    obtain ⟨rfl, e', hcall, rfl⟩ := returns_made.mp h
    obtain ⟨⟨ht, -⟩, ha, -⟩ := hparts (hρ.before hclose (w.respects_keeping.reclose _ _))
    obtain ⟨n, hn⟩ := fitArguments_rebinds ha hfitted
    rw [Registry.mkCall_eq_ok hcall]
    exact .call ht hn

theorem construct_rebinds {t : Ty} {inits : List (String × Expr)} {o : Outcome}
    (h : Returns (w.construct self t inits) s o s') (hρ : Extends ρ s') :
    Expr.Rebinds w.config ρ (.new t inits) (o.on (.new t inits)) := by
  simp only [construct, returns_bind] at h
  obtain ⟨⟨values, kept⟩, s₁, hvalues, h⟩ := h
  dsimp only at h
  have hparts : Extends ρ s₁ → Expr.RebindsAll w.config ρ (inits.map (·.2)) values ∧
      (kept = true → values = inits.map (·.2)) := all_rebinds hself hvalues
  have hsame : kept = true → Extends ρ s₁ →
      Expr.Rebinds w.config ρ (.new t inits) (.new t inits) := by
    intro hkept hρ₁
    obtain ⟨hv, hsame⟩ := hparts hρ₁
    rw [hsame hkept] at hv
    exact .node .new hv
  have hnew : ∀ {t' : Ty} {names : List String}, names.length = inits.length → Extends ρ s₁ →
      Expr.Rebinds w.config ρ (.new t inits) (.new t' (names.zip values)) := by
    intro t' names hnames hρ₁
    have hv := (hparts hρ₁).1
    refine .node .new ?_
    rw [Expr.children, Expr.children, List.map_snd_zip]
    · exact hv
    · exact Nat.le_of_eq (hv.length_eq.trans ((List.length_map _).trans hnames.symm))
  split at h
  · split at h
    · rename_i hkept
      obtain ⟨rfl, rfl⟩ := returns_pure.mp h
      exact hsame hkept hρ
    · obtain ⟨rfl, rfl⟩ := returns_pure.mp h
      exact hnew (List.length_map _) hρ
  · obtain ⟨target, s₂, htarget, h⟩ := returns_bind.mp h
    have hρ₁ : Extends ρ s₂ → Extends ρ s₁ := fun hρ₂ =>
      hρ₂.before htarget (w.respects_keeping.dataType _)
    split at h
    · obtain ⟨rfl, ⟨hkept, rfl⟩ | ⟨-, e', hmade, rfl⟩⟩ := returns_keptOrMade.mp h
      · exact hsame hkept (hρ₁ hρ)
      · rw [Registry.mkNew_eq_ok hmade]
        exact hnew (List.length_map _) (hρ₁ hρ)
    · obtain ⟨rfl, e', hmade, rfl⟩ := returns_made.mp h
      rw [Registry.mkNew_eq_ok hmade]
      exact hnew (by rw [List.length_map, List.length_map]) (hρ₁ hρ)

theorem newArray_rebinds {t : Ty} {items : List Expr} {o : Outcome}
    (h : Returns (w.node self (.newArray t items)) s o s') (hρ : Extends ρ s') :
    Expr.Rebinds w.config ρ (.newArray t items) (o.on (.newArray t items)) := by
  simp only [node, returns_bind] at h
  obtain ⟨⟨items', kept⟩, s₁, hitems, target, s₂, htarget, h⟩ := h
  obtain ⟨rfl, hchosen⟩ := returns_keptOrMade.mp h
  obtain ⟨hi, hsame⟩ :=
    all_rebinds hself hitems (hρ.before htarget (w.respects_keeping.dataType _))
  rcases hchosen with ⟨hkept, rfl⟩ | ⟨-, e', hmade, rfl⟩
  · rw [hsame hkept.2] at hi
    exact .node .newArray hi
  · rw [Registry.mkNewArray_eq_ok hmade]
    exact .node .newArray hi

theorem cond_rebinds {a b d : Expr} {t : Ty} {o : Outcome}
    (h : Returns (w.node self (.cond a b d t)) s o s') (hρ : Extends ρ s') :
    Expr.Rebinds w.config ρ (.cond a b d t) (o.on (.cond a b d t)) := by
  have hkeeps := fun e => hself.keeps e fun _ _ => trivial
  simp only [node, returns_bind] at h
  obtain ⟨oa, s₁, ha, ob, s₂, hb, od, s₃, hd, h⟩ := h
  obtain ⟨rfl, hchosen⟩ := returns_keptOrMade.mp h
  have hρ₂ := hρ.before hd (hkeeps d)
  have ha := hself.rebinds ha (hρ₂.before hb (hkeeps b))
  have hb := hself.rebinds hb hρ₂
  have hd := hself.rebinds hd hρ
  rcases hchosen with ⟨hkept, rfl⟩ | ⟨-, e', hmade, rfl⟩
  · simp only [Bool.and_eq_true] at hkept
    rw [Outcome.on_of_isKept hkept.1.1] at ha
    rw [Outcome.on_of_isKept hkept.1.2] at hb
    rw [Outcome.on_of_isKept hkept.2] at hd
    exact .node .cond (.cons ha (.cons hb (.cons hd .nil)))
  · rw [Registry.mkCond_eq_ok hmade]
    exact .node .cond (.cons ha (.cons hb (.cons hd .nil)))

theorem typeIs_rebinds {e : Expr} {tested t : Ty} {o : Outcome}
    (h : Returns (w.node self (.typeIs e tested t)) s o s') (hρ : Extends ρ s') :
    Expr.Rebinds w.config ρ (.typeIs e tested t) (o.on (.typeIs e tested t)) := by
  simp only [node, returns_bind] at h
  obtain ⟨oe, s₁, he, target, s₂, htarget, h⟩ := h
  have hoperand : Extends ρ s₂ → Expr.Rebinds w.config ρ e (oe.on e) := fun hρ₂ =>
    hself.rebinds he (hρ₂.before htarget (w.respects_keeping.dataType _))
  split at h
  · rename_i hkept
    obtain ⟨rfl, rfl⟩ := returns_pure.mp h
    have he := hoperand hρ
    rw [Outcome.on_of_isKept hkept.2] at he
    exact .node .typeIs (.cons he .nil)
  · obtain ⟨rfl, rfl⟩ := returns_pure.mp h
    exact .node .typeIs (.cons (hoperand hρ) .nil)

theorem invoke_rebinds {f : Expr} {args : List Expr} {t : Ty} {o : Outcome}
    (h : Returns (w.node self (.invoke f args t)) s o s') (hρ : Extends ρ s') :
    Expr.Rebinds w.config ρ (.invoke f args t) (o.on (.invoke f args t)) := by
  simp only [node, returns_bind] at h
  obtain ⟨of, s₁, hf, ⟨args', kept⟩, s₂, hargs, h⟩ := h
  obtain ⟨rfl, hchosen⟩ := returns_keptOrMade.mp h
  have hf := hself.rebinds hf
    (hρ.before hargs (w.respects_keeping.all hself.keeps args fun _ _ _ _ => trivial))
  obtain ⟨ha, hsame⟩ := all_rebinds hself hargs hρ
  rcases hchosen with ⟨hkept, rfl⟩ | ⟨-, e', hmade, rfl⟩
  · rw [Bool.and_eq_true] at hkept
    rw [Outcome.on_of_isKept hkept.1] at hf
    rw [hsame hkept.2] at ha
    exact .node .invoke (.cons hf ha)
  · obtain ⟨t', rfl⟩ := Registry.mkInvoke_eq_ok hmade
    exact .node .invoke (.cons hf ha)

theorem node_rebinds {e : Expr} {o : Outcome} (h : Returns (w.node self e) s o s')
    (hρ : Extends ρ s') : Expr.Rebinds w.config ρ e (o.on e) := by
  cases e with
  | param p =>
      simp only [node, param, returns_bind, returns_pure] at h
      obtain ⟨p', s₁, hp, rfl, rfl⟩ := h
      obtain rfl := replace_extends hp hρ
      split
      · rename_i hsame
        have hparam : Expr.Rebinds w.config ρ (.param p) (.param (ρ p)) := .param
        rwa [hsame] at hparam
      · exact .param
  | const v t =>
      simp only [node, const, returns_bind] at h
      obtain ⟨target, s₁, -, h⟩ := h
      split at h
      · obtain ⟨rfl, -⟩ := returns_pure.mp h
        exact .node .const .nil
      · obtain ⟨e', hmade, rfl⟩ := returns_map.mp h
        obtain ⟨v', rfl, -⟩ := constantAs_eq hmade
        exact .node .const .nil
  | member e m => exact member_rebinds hself h hρ
  | lambda params body t => exact lambda_rebinds hself h hρ
  | unary op e t => exact unary_rebinds hself h hρ
  | binary op left right conversion t => exact spine_rebinds hself h hρ
  | cond a b d t => exact cond_rebinds hself h hρ
  | call target m args => exact call_rebinds hself h hρ
  | new t inits => exact construct_rebinds hself h hρ
  | newArray t items => exact newArray_rebinds hself h hρ
  | typeIs e tested t => exact typeIs_rebinds hself h hρ
  | invoke f args t => exact invoke_rebinds hself h hρ
  | default t =>
      simp only [node, returns_bind, returns_pure] at h
      obtain ⟨target, s₁, -, rfl, -⟩ := h
      split <;> exact .node .default .nil

omit hself in
/-- By induction on the levels that are left. -/
theorem recastWithin_rebinding : ∀ n, Rebinding w ρ (w.recastWithin n)
  | 0 => ⟨w.respects_keeping.recastWithin 0, fun h _ => absurd h returns_throw⟩
  | n + 1 => ⟨w.respects_keeping.recastWithin (n + 1), node_rebinds (recastWithin_rebinding n)⟩

end Recaster

/-! ## §3  Whole expressions -/

theorem RecastState.standsFor_extends (s : RecastState) : Recaster.Extends s.standsFor s := by
  intro p q hq
  rw [standsFor, hq]
  rfl

/-- The second expression is the first with `ρ p` for every parameter `p`, and binds alike. -/
structure PreservesBinding (c : Configuration) (ρ : Parameter → Parameter) (e e' : Expr) :
    Prop where
  /-- Every reference and every lambda names the one replacement. -/
  rebinds : Expr.Rebinds c ρ e e'
  free : ∀ q, Expr.Free q e' → ∃ p, Expr.Free p e ∧ ρ p = q
  apart : ∀ p ∈ e.parameters, ∀ p' ∈ e.parameters, (ρ p).id = (ρ p').id → p = p'
  /-- A parameter stays if its type does, and has a new number otherwise. -/
  renumbered : ∀ p ∈ e.parameters, ρ p = p ∨ (ρ p).name = p.name ∧ (ρ p).ty ≠ p.ty ∧
    ∀ p' ∈ e.parameters, (ρ p).id ≠ p'.id
  /-- A parameter of another type than before is left in custom lambdas only. -/
  gone : ∀ p ∈ e.parameters, (ρ p).ty ≠ p.ty → ∀ q ∈ e'.parameters, q.id = p.id →
    ∃ custom, c.IsCustom custom ∧ q ∈ custom.parameters

/-- Recasting preserves the binding structure, whatever the table, if custom lambdas are closed. -/
theorem Recaster.recast_preservesBinding (w : Recaster) {e : Expr} {s s' : RecastState}
    {o : Outcome} (hclosed : w.config.CustomsClosed) (hdistinct : e.DistinctNumbers)
    (hbelow : ∀ p ∈ e.parameters, p.id < s.fresh) (hstart : s.replacements = {})
    (h : Returns (w.recast e) s o s') : PreservesBinding w.config s'.standsFor e (o.on e) := by
  have hdistinct' : ∀ p q, p ∈ e.parameters → q ∈ e.parameters → p.id = q.id → p = q :=
    fun p q hp hq => hdistinct p hp q hq
  have hreplacing : Replacing (· ∈ e.parameters) s.fresh s'.replacements s'.fresh := by
    have hrespects : w.Respects (· ∈ e.parameters) fun s₁ s₂ =>
        Replacing (· ∈ e.parameters) s.fresh s₁.replacements s₁.fresh →
          Replacing (· ∈ e.parameters) s.fresh s₂.replacements s₂.fresh :=
      respects_replacing hdistinct' hbelow
    have hrun := (hrespects.recastWithin w.options.maxDepth e fun _ hp => hp).of_returns h
    exact hrun (by rw [hstart]; exact .start _)
  have hrebinds : Expr.Rebinds w.config s'.standsFor e (o.on e) :=
    (recastWithin_rebinding w.options.maxDepth).rebinds h s'.standsFor_extends
  refine ⟨hrebinds, fun q hq => hrebinds.free hclosed hdistinct hq,
    fun p hp p' hp' hid => hreplacing.standsFor_apart hdistinct' hbelow hp hp' hid,
    fun p hp => ?_, fun p hp hty q hq hid => ?_⟩
  · refine (hreplacing.standsFor_cases hp).imp_right fun ⟨hn, hname, hty⟩ =>
      ⟨hname, hty, fun p' hp' => ?_⟩
    have := hbelow p' hp'
    omega
  · refine (hrebinds.parameters hq).resolve_left ?_
    rintro ⟨p', hp', rfl⟩
    -- A replacement of that number is the parameter itself, which then keeps its type.
    rcases hreplacing.standsFor_cases hp' with hsame | ⟨hn, -⟩
    · rw [hsame] at hid
      obtain rfl := hdistinct p' hp' p hp hid
      exact hty (by rw [hsame])
    · exact absurd (hbelow p hp) (by omega)

/-! ### A custom lambda with a parameter of its own -/

namespace Recaster.Payments

def order : Ty := .declared 0

def orderModel : Ty := .declared 1

def line : Ty := .declared 2

def entry : Ty := .declared 3

def first : Member := ⟨"First", line⟩

def isOpen : Member := ⟨"Open", .boolean⟩

def paid : Member := ⟨"Paid", .boolean⟩

def registry : Registry :=
  { declarations :=
      [.record "Order" none [first], .record "OrderModel" none [isOpen],
        .record "Line" none [paid], .record "Entry" none [paid]] }

def o : Parameter := ⟨0, "o", order⟩

def x : Parameter := ⟨1, "x", line⟩

def m : Parameter := ⟨2, "m", orderModel⟩

def y : Parameter := ⟨3, "y", line⟩

/-- `o => (x => x.Paid)(o.First)` -/
def firstPaid : Expr :=
  Registry.mkLambda [o]
    (.invoke (Registry.mkLambda [x] (.member (.param x) paid)) [.member (.param o) first] .boolean)

def recaster : Recaster where
  config :=
    ⟨registry,
      [{ source := entry, destination := line, rules := [{ member := paid, source := [paid] }] },
        { source := order, destination := orderModel,
          rules := [{ member := isOpen, custom := some firstPaid }] }]⟩
  mapper := .keep
  options := {}

/-- `(m, p) => m.Open && p.Paid` -/
def openAndPaid (p : Parameter) : Expr :=
  Registry.mkLambda [m, p]
    (.binary .andAlso (.member (.param m) isOpen) (.member (.param p) paid) none .boolean)

def start : RecastState := { table := ⟨[(orderModel, order), (line, entry)]⟩, fresh := 4 }

def m' : Parameter := ⟨4, "m", order⟩

/-- `(m, q) => (x => x.Paid)(m.First) && q.Paid` over the data types -/
def firstAndPaid (q : Parameter) : Expr :=
  Registry.mkLambda [m', q]
    (.binary .andAlso
      (.invoke (Registry.mkLambda [x] (.member (.param x) paid)) [.member (.param m') first] .boolean)
      (.member (.param q) paid) none .boolean)

/-- The state in which `q` stands for the second parameter `p`. -/
def done (p q : Parameter) : RecastState :=
  { start with replacements := ⟨[(p.id, q), (m.id, m')]⟩, fresh := 6 }

theorem customsClosed : recaster.config.CustomsClosed := by
  intro custom hcustom
  obtain rfl : custom = firstPaid := by
    obtain ⟨map, hmap, ⟨rule, hrule, hcustom⟩ | ⟨rule, hrule, -⟩⟩ := hcustom <;>
      simp only [recaster, List.mem_cons, List.not_mem_nil, or_false] at hmap <;>
      rcases hmap with rfl | rfl
    · obtain rfl := List.mem_singleton.mp hrule
      cases hcustom
    · obtain rfl := List.mem_singleton.mp hrule
      exact (Option.some.inj hcustom).symm
    · cases hrule
    · cases hrule
  refine ⟨⟨o, _, _, rfl⟩, fun p hfree => ?_⟩
  -- `x` is bound by the inner lambda and `o` by the outer one.
  obtain ⟨hbody, ho⟩ := Expr.free_lambda.mp hfree
  obtain ⟨part, hpart, hfree⟩ := (Expr.free_plain (by trivial)).mp hbody
  simp only [Expr.children, List.mem_cons, List.not_mem_nil, or_false] at hpart
  rcases hpart with rfl | rfl
  · obtain ⟨hmember, hx⟩ := Expr.free_lambda.mp hfree
    obtain ⟨_, hbase, hfree⟩ := (Expr.free_plain (by trivial)).mp hmember
    obtain rfl := List.mem_singleton.mp hbase
    exact hx x List.mem_cons_self (congrArg Parameter.id (Expr.free_param.mp hfree))
  · obtain ⟨_, hbase, hfree⟩ := (Expr.free_plain (by trivial)).mp hfree
    obtain rfl := List.mem_singleton.mp hbase
    exact ho o List.mem_cons_self (congrArg Parameter.id (Expr.free_param.mp hfree))

/-- The parameters first, then the body, in which they are replaced already. -/
theorem returns_openAndPaid {p q : Parameter}
    (hparams : Returns (recaster.replaceAll [m, p]) start [m', q] (done p q))
    (hbody : Returns (recaster.recastWithin 255 (.binary .andAlso (.member (.param m) isOpen)
      (.member (.param p) paid) none .boolean)) (done p q)
      (.made (.binary .andAlso
        (.invoke (Registry.mkLambda [x] (.member (.param x) paid)) [.member (.param m') first]
          .boolean)
        (.member (.param q) paid) none .boolean)) (done p q)) :
    Returns (recaster.recast (openAndPaid p)) start (.made (firstAndPaid q)) (done p q) :=
  show Returns (recaster.lambda _ _ _) _ _ _ from
    returns_bind.mpr ⟨_, _, hparams, returns_bind.mpr ⟨_, _, hbody, rfl⟩⟩

theorem openAndPaid_distinct :
    (openAndPaid x).DistinctNumbers ∧ (openAndPaid y).DistinctNumbers := by
  unfold Expr.DistinctNumbers
  decide

end Recaster.Payments

open Recaster.Payments in
theorem Recaster.recast_preservesBinding_payments :
    Returns (recaster.recast (openAndPaid y)) start (.made (firstAndPaid ⟨5, "y", entry⟩))
        (done y ⟨5, "y", entry⟩) ∧
      PreservesBinding recaster.config (done y ⟨5, "y", entry⟩).standsFor (openAndPaid y)
        (firstAndPaid ⟨5, "y", entry⟩) := by
  have h : Returns (recaster.recast (openAndPaid y)) start (.made (firstAndPaid ⟨5, "y", entry⟩))
      (done y ⟨5, "y", entry⟩) := returns_openAndPaid rfl rfl
  exact ⟨h, recaster.recast_preservesBinding customsClosed openAndPaid_distinct.2 (by decide) rfl h⟩

open Recaster.Payments in
/-- A parameter that the given expression shares with a custom lambda is left there, though
one of another type stands for it. -/
theorem Recaster.recast_preservesBinding_fails :
    recaster.config.CustomsClosed ∧ (openAndPaid x).DistinctNumbers ∧
      (∀ p ∈ (openAndPaid x).parameters, p.id < start.fresh) ∧ start.replacements = {} ∧
      Returns (recaster.recast (openAndPaid x)) start (.made (firstAndPaid ⟨5, "x", entry⟩))
        (done x ⟨5, "x", entry⟩) ∧
      x ∈ (openAndPaid x).parameters ∧ ((done x ⟨5, "x", entry⟩).standsFor x).ty ≠ x.ty ∧
      x ∈ (firstAndPaid ⟨5, "x", entry⟩).parameters :=
  ⟨customsClosed, openAndPaid_distinct.1, by decide, rfl, returns_openAndPaid rfl rfl,
    by decide, by decide, by decide⟩

end Recast