import Recast.Proofs.PathTyping
import Recast.Proofs.PlanCalls
import Recast.Recaster.Lambda

/-! # Recasting is type sound

A well-typed lambda is recast to a well-typed one, whatever the table holds and
whatever was asked for.  `Sound` says this of a way to recast the nodes below.
For every kind of node the rule for it is then sound as well, a lemma for each,
and so is recasting to any depth.  The members of the rules have to be members of
the types, as they are when a configuration is planned (`Plan.finish_coherent`), or
else recasting reads members that are not there.
-/

namespace Recast

namespace Recaster

/-- Well-typed expressions are recast to well-typed ones. -/
def Sound (r : Registry) (self : Expr → RecastM Outcome) : Prop :=
  ∀ {e : Expr} {o : Outcome} {s s' : RecastState},
    Returns (self e) s o s' → r.WellTyped e → r.WellTyped (o.on e)

variable {w : Recaster} {self : Expr → RecastM Outcome}

/-! ## §1  Lists of expressions -/

theorem all_wellTyped (hself : Sound w.types self) :
    ∀ {es es' : List Expr} {kept : Bool} {s s' : RecastState},
      Returns (all self es) s (es', kept) s' → (∀ e ∈ es, w.types.WellTyped e) →
        ∀ e ∈ es', w.types.WellTyped e
  | [], es', kept, s, s', h, _ => by
      simp only [all, returns_pure, Prod.mk.injEq] at h
      obtain ⟨⟨rfl, -⟩, -⟩ := h
      simp
  | e :: es, es', kept, s, s', h, hes => by
      simp only [all, returns_bind, returns_pure, Prod.mk.injEq] at h
      obtain ⟨o, s₁, ho, ⟨rest, keptRest⟩, s₂, hrest, ⟨rfl, -⟩, -⟩ := h
      rintro e' (_ | ⟨_, he'⟩)
      · exact hself ho (hes e List.mem_cons_self)
      · exact all_wellTyped hself hrest (fun e he => hes e (List.mem_cons_of_mem _ he)) e' he'

theorem arguments_wellTyped (hself : Sound w.types self) :
    ∀ {es es' : List Expr} {kept : Bool} {s s' : RecastState},
      Returns (w.arguments self es) s (es', kept) s' → (∀ e ∈ es, w.types.WellTyped e) →
        ∀ e ∈ es', w.types.WellTyped e
  | [], es', kept, s, s', h, _ => by
      simp only [arguments, returns_pure, Prod.mk.injEq] at h
      obtain ⟨⟨rfl, -⟩, -⟩ := h
      simp
  | e :: es, es', kept, s, s', h, hes => by
      simp only [arguments, returns_bind, returns_pure, Prod.mk.injEq] at h
      obtain ⟨o, s₁, ho, _, s₂, -, ⟨rest, keptRest⟩, s₃, hrest, ⟨rfl, -⟩, -⟩ := h
      rintro e' (_ | ⟨_, he'⟩)
      · exact hself ho (hes e List.mem_cons_self)
      · exact arguments_wellTyped hself hrest
          (fun e he => hes e (List.mem_cons_of_mem _ he)) e' he'

theorem optional_wellTyped (hself : Sound w.types self) {e? e'? : Option Expr} {kept : Bool}
    {s s' : RecastState} (h : Returns (optional self e?) s (e'?, kept) s')
    (he : ∀ e ∈ e?, w.types.WellTyped e) : ∀ e ∈ e'?, w.types.WellTyped e := by
  cases e? with
  | none =>
      simp only [optional, returns_pure, Prod.mk.injEq] at h
      obtain ⟨⟨rfl, -⟩, -⟩ := h
      simp
  | some e =>
      simp only [optional, returns_bind, returns_pure, Prod.mk.injEq] at h
      obtain ⟨o, s₁, ho, ⟨rfl, -⟩, -⟩ := h
      rintro e' ⟨⟩
      exact hself ho (he e rfl)

theorem mem_map_snd_zip {names : List String} {values : List Expr} {e : Expr}
    (h : e ∈ (names.zip values).map (·.2)) : e ∈ values := by
  obtain ⟨⟨name, v⟩, hmem, rfl⟩ := List.mem_map.mp h
  exact (List.of_mem_zip hmem).2

theorem fitArgument_wellTyped {arg e : Expr} {p : Ty} (h : w.fitArgument arg p = .ok e)
    (harg : w.types.WellTyped arg) : w.types.WellTyped e := by
  unfold fitArgument at h
  split at h
  · exact Registry.mkConvert_wellTyped h harg
  · cases h
    exact harg

theorem fitArguments_wellTyped : ∀ {args args' : List Expr} {params : List Ty},
    w.fitArguments args params = .ok args' → (∀ a ∈ args, w.types.WellTyped a) →
      ∀ a ∈ args', w.types.WellTyped a
  | [], args', _, h, _ => by
      cases h
      simp
  | _ :: _, args', [], h, _ => by
      cases h
      simp
  | arg :: args, args', p :: params, h, hargs => by
      simp only [fitArguments, Checked.bind_eq_ok, Checked.pure_eq_ok] at h
      obtain ⟨fitted, hfitted, rest, hrest, rfl⟩ := h
      rintro a (_ | ⟨_, ha⟩)
      · exact fitArgument_wellTyped hfitted (hargs arg List.mem_cons_self)
      · exact fitArguments_wellTyped hrest (fun a ha => hargs a (List.mem_cons_of_mem _ ha)) a ha

/-! ## §2  Leaves and members -/

theorem constantAs_wellTyped {v : Value} {source target : Ty} {e : Expr} {s s' : RecastState}
    (h : Returns (w.constantAs v source target) s e s') : w.types.WellTyped e := by
  unfold constantAs at h
  split at h
  · obtain ⟨rfl, -⟩ := returns_pure.mp h
    exact Registry.wellTyped_iff.mpr ⟨trivial, by simp [Expr.children]⟩
  · exact absurd h returns_throw

theorem param_wellTyped {p : Parameter} {o : Outcome} {s s' : RecastState}
    (h : Returns (w.param p) s o s') : w.types.WellTyped (o.on (.param p)) := by
  simp only [param, returns_bind, returns_pure] at h
  obtain ⟨p', s₁, -, rfl, -⟩ := h
  split <;> exact Registry.wellTyped_iff.mpr ⟨trivial, by simp [Outcome.on, Expr.children]⟩

theorem const_wellTyped {v : Value} {t : Ty} {o : Outcome} {s s' : RecastState}
    (h : Returns (w.const v t) s o s') : w.types.WellTyped (o.on (.const v t)) := by
  simp only [const, returns_bind] at h
  obtain ⟨target, s₁, -, h⟩ := h
  split at h
  · obtain ⟨rfl, -⟩ := returns_pure.mp h
    exact Registry.wellTyped_iff.mpr ⟨trivial, by simp [Outcome.on, Expr.children]⟩
  · obtain ⟨e, he, rfl⟩ := returns_map.mp h
    exact constantAs_wellTyped he

theorem chainBase_wellTyped {r : Registry} {e : Expr} (he : r.WellTyped e) :
    r.WellTyped e.chainBase :=
  fun n hn => he n (Expr.nodes_subset_of_mem e.chainBase_mem_nodes hn)

theorem singleChain_wellTyped {r : Registry} {e root e' : Expr} (h : r.singleChain e root = .ok e')
    (he : r.WellTyped e) (hroot : r.WellTyped root) : r.WellTyped e' := by
  unfold Registry.singleChain at h
  split at h
  · cases h
    exact he
  · simp only [Checked.bind_eq_ok] at h
    obtain ⟨chain, -, h⟩ := h
    exact Registry.mkPath_wellTyped h hroot

theorem settle_wellTyped {model : Ty} {custom : Bool} {walked e : Expr} {s s' : RecastState}
    (h : Returns (w.settle model custom walked) s e s') (hwalked : w.types.WellTyped walked) :
    w.types.WellTyped e := by
  unfold settle at h
  split at h
  · exact Registry.mkConvert_wellTyped (RecastM.returns_ofChecked.mp h).1 hwalked
  · simp only [returns_bind, returns_pure] at h
    obtain ⟨_, _, -, rfl, -⟩ := h
    exact hwalked

theorem member_wellTyped (hself : Sound w.types self) (hincludes : w.config.NoIncludes)
    (hcoherent : w.config.Coherent) (hcustoms : w.config.CustomsTyped) {e : Expr} {o : Outcome}
    {s s' : RecastState} (h : Returns (w.member self e) s o s') (he : w.types.WellTyped e) :
    w.types.WellTyped (o.on e) := by
  simp only [member, returns_bind, RecastM.returns_onTable] at h
  obtain ⟨ob, s₁, hob, steps, s₂, ⟨table, hsteps, rfl⟩, h⟩ := h
  have hbase := hself hob (chainBase_wellTyped he)
  split at h
  · obtain ⟨rfl, -⟩ := returns_pure.mp h
    exact he
  · simp only [returns_bind, RecastM.returns_ofChecked] at h
    obtain ⟨walked, _, ⟨hwalk, -⟩, rebuilt, _, hsettle, h⟩ := h
    obtain ⟨u, hleads⟩ :=
      Configuration.followPath_leads hincludes hcoherent hcustoms hsteps rfl
    have hrebuilt := settle_wellTyped hsettle (walk_wellTyped hleads hbase hwalk).2
    split at h
    · obtain ⟨chain, hchain, rfl⟩ := returns_map.mp h
      exact singleChain_wellTyped (RecastM.returns_ofChecked.mp hchain).1 hrebuilt hbase
    · obtain ⟨rfl, -⟩ := returns_pure.mp h
      exact hrebuilt

/-! ## §3  Operators -/

theorem lambda_wellTyped (hself : Sound w.types self) {params : List Parameter} {body : Expr}
    {t : Ty} {o : Outcome} {s s' : RecastState} (h : Returns (w.lambda self params body) s o s')
    (he : w.types.WellTyped (.lambda params body t)) :
    w.types.WellTyped (o.on (.lambda params body t)) := by
  simp only [lambda, returns_bind] at h
  obtain ⟨params', s₁, -, ob, s₂, hob, h⟩ := h
  split at h
  · obtain ⟨rfl, -⟩ := returns_pure.mp h
    exact he
  · obtain ⟨rfl, -⟩ := returns_pure.mp h
    exact Registry.mkLambda_wellTyped (hself hob (he.child (by simp [Expr.children])))

theorem rebuildUnary_wellTyped (hvalid : w.options.ignoreValidations = false) {op : UnaryOp}
    {operand e : Expr} {ty target : Ty} {s s' : RecastState}
    (h : Returns (w.rebuildUnary op operand ty target) s e s')
    (hoperand : w.types.WellTyped operand) : w.types.WellTyped e := by
  simp only [rebuildUnary, hvalid, Bool.false_eq_true, if_false] at h
  cases hop : op.isConversion with
  | true =>
      rw [if_pos hop] at h
      exact Registry.mkConversion_wellTyped hop (RecastM.returns_ofChecked.mp h).1 hoperand
  | false =>
      rw [if_neg (by simp [hop])] at h
      exact Registry.mkUnary_wellTyped hop (RecastM.returns_ofChecked.mp h).1 hoperand

theorem operand_wellTyped (hself : Sound w.types self)
    (hvalid : w.options.ignoreValidations = false) {op : UnaryOp} {operand : Expr} {ty : Ty}
    {o : Outcome} {s s' : RecastState} (h : Returns (w.operand self op operand ty) s o s')
    (he : w.types.WellTyped (.unary op operand ty)) :
    w.types.WellTyped (o.on (.unary op operand ty)) := by
  simp only [Recaster.operand, returns_bind] at h
  obtain ⟨oo, s₁, hoo, h⟩ := h
  have hoperand := hself hoo (he.child (by simp [Expr.children]))
  split at h
  · split at h
    · obtain ⟨rfl, -⟩ := returns_pure.mp h
      exact he
    · obtain ⟨e, hquote, rfl⟩ := returns_map.mp h
      exact Registry.mkQuote_wellTyped (RecastM.returns_ofChecked.mp hquote).1 hoperand
  · obtain ⟨target, s₂, -, h⟩ := returns_bind.mp h
    split at h
    · obtain ⟨rfl, -⟩ := returns_pure.mp h
      exact he
    · obtain ⟨e, hrebuilt, rfl⟩ := returns_map.mp h
      exact rebuildUnary_wellTyped hvalid hrebuilt hoperand

theorem unary_wellTyped (hself : Sound w.types self)
    (hvalid : w.options.ignoreValidations = false) {op : UnaryOp} {operand : Expr} {ty : Ty}
    {o : Outcome} {s s' : RecastState} (h : Returns (w.unary self op operand ty) s o s')
    (he : w.types.WellTyped (.unary op operand ty)) :
    w.types.WellTyped (o.on (.unary op operand ty)) := by
  unfold unary at h
  split at h
  · obtain ⟨target, s₁, -, h⟩ := returns_bind.mp h
    split at h
    · obtain ⟨e, hconst, rfl⟩ := returns_map.mp h
      exact constantAs_wellTyped hconst
    · exact operand_wellTyped hself hvalid h he
  · exact operand_wellTyped hself hvalid h he

theorem operands_wellTyped (hself : Sound w.types self) {left right : Expr}
    {leftDone : Option Outcome} {l r : Outcome} {s s' : RecastState}
    (h : Returns (operands self left right leftDone) s (l, r) s')
    (hl : w.types.WellTyped left) (hr : w.types.WellTyped right)
    (hdone : ∀ o ∈ leftDone, w.types.WellTyped (o.on left)) :
    w.types.WellTyped (l.on left) ∧ w.types.WellTyped (r.on right) := by
  cases leftDone with
  | some done =>
      simp only [operands, returns_bind, returns_pure, Prod.mk.injEq] at h
      obtain ⟨r', s₁, hright, ⟨rfl, rfl⟩, -⟩ := h
      exact ⟨hdone _ rfl, hself hright hr⟩
  | none =>
      simp only [operands] at h
      split at h
      · simp only [returns_bind, returns_pure, Prod.mk.injEq] at h
        obtain ⟨r', s₁, hright, l', s₂, hleft, ⟨rfl, rfl⟩, -⟩ := h
        exact ⟨hself hleft hl, hself hright hr⟩
      · simp only [returns_bind, returns_pure, Prod.mk.injEq] at h
        obtain ⟨l', s₁, hleft, r', s₂, hright, ⟨rfl, rfl⟩, -⟩ := h
        exact ⟨hself hleft hl, hself hright hr⟩

theorem binaryNode_wellTyped (hself : Sound w.types self) {op : BinaryOp} {left right : Expr}
    {conversion : Option Expr} {t : Ty} {leftDone : Option Outcome} {o : Outcome}
    {s s' : RecastState} (h : Returns (w.binaryNode self op left right conversion leftDone) s o s')
    (he : w.types.WellTyped (.binary op left right conversion t))
    (hdone : ∀ o ∈ leftDone, w.types.WellTyped (o.on left)) :
    w.types.WellTyped (o.on (.binary op left right conversion t)) := by
  simp only [binaryNode, returns_bind] at h
  obtain ⟨⟨l, r⟩, s₁, hoperands, ⟨conversion', conversionKept⟩, s₂, hconversion, h⟩ := h
  obtain ⟨hl, hr⟩ := operands_wellTyped hself hoperands (he.child (by simp [Expr.children]))
    (he.child (by simp [Expr.children])) hdone
  have hc := optional_wellTyped hself hconversion fun c hc =>
    he.child (by simp [Expr.children, Option.mem_def.mp hc])
  dsimp only at h
  split at h
  · obtain ⟨rfl, -⟩ := returns_pure.mp h
    exact he
  · obtain ⟨e, hmade, rfl⟩ := returns_map.mp h
    exact Registry.mkBinary_wellTyped (RecastM.returns_ofChecked.mp hmade).1 hl hr hc

/-- Along the left operands the outcome of one node is the operand of the next. -/
theorem spine_wellTyped (hself : Sound w.types self) : ∀ {e : Expr} {o : Outcome}
    {s s' : RecastState}, Returns (w.spine self e) s o s' → w.types.WellTyped e →
      w.types.WellTyped (o.on e) := by
  intro e
  induction e using Recaster.spine.induct with
  | case1 op left right conversion t hleft ih =>
      intro o s s' h he
      rw [spine, if_pos hleft] at h
      obtain ⟨l, s₁, hl, h⟩ := returns_bind.mp h
      refine binaryNode_wellTyped hself h he ?_
      rintro o' ⟨⟩
      exact ih hl (he.child (by simp [Expr.children]))
  | case2 op left right conversion t hleft =>
      intro o s s' h he
      rw [spine, if_neg hleft] at h
      exact binaryNode_wellTyped hself h he (by simp)
  | case3 e hbinary =>
      intro o s s' h he
      rw [spine] at h
      · exact hself h he
      · exact hbinary

/-! ## §4  Calls, records and the other nodes -/

theorem call_wellTyped (hself : Sound w.types self) {target : Option Expr} {m : Method}
    {args : List Expr} {o : Outcome} {s s' : RecastState}
    (h : Returns (w.call self target m args) s o s')
    (he : w.types.WellTyped (.call target m args)) :
    w.types.WellTyped (o.on (.call target m args)) := by
  simp only [call, returns_bind] at h
  obtain ⟨⟨target', targetKept⟩, s₁, htarget, ⟨args', argsKept⟩, s₂, hargs, h⟩ := h
  have htarget' := optional_wellTyped hself htarget fun t ht =>
    he.child (by simp [Expr.children, Option.mem_def.mp ht])
  have hargs' := arguments_wellTyped hself hargs fun a ha =>
    he.child (by simp [Expr.children, ha])
  dsimp only at h
  split at h
  · obtain ⟨rfl, -⟩ := returns_pure.mp h
    exact he
  · simp only [returns_bind, RecastM.returns_ofChecked] at h
    obtain ⟨m', s₃, -, fitted, _, ⟨hfitted, -⟩, h⟩ := h
    obtain ⟨e, hmade, rfl⟩ := returns_map.mp h
    exact Registry.mkCall_wellTyped (RecastM.returns_ofChecked.mp hmade).1 htarget'
      (fitArguments_wellTyped hfitted hargs')

theorem construct_wellTyped (hself : Sound w.types self) {ty : Ty}
    {inits : List (String × Expr)} {o : Outcome} {s s' : RecastState}
    (h : Returns (w.construct self ty inits) s o s') (he : w.types.WellTyped (.new ty inits)) :
    w.types.WellTyped (o.on (.new ty inits)) := by
  simp only [construct, returns_bind] at h
  obtain ⟨⟨values, kept⟩, s₁, hvalues, h⟩ := h
  have hvalues' := all_wellTyped hself hvalues fun v hv => he.child hv
  have hzip : ∀ {names : List String}, ∀ v ∈ (names.zip values).map (·.2), w.types.WellTyped v :=
    fun v hv => hvalues' v (mem_map_snd_zip hv)
  dsimp only at h
  split at h
  · obtain ⟨rfl, -⟩ := returns_pure.mp h
    split
    · exact he
    · exact Registry.mkAnonymous_wellTyped hzip
  · obtain ⟨target, s₂, -, h⟩ := returns_bind.mp h
    split at h
    · split at h
      · obtain ⟨rfl, -⟩ := returns_pure.mp h
        exact he
      · obtain ⟨e, hmade, rfl⟩ := returns_map.mp h
        exact Registry.mkNew_wellTyped (RecastM.returns_ofChecked.mp hmade).1 hzip
    · obtain ⟨e, hmade, rfl⟩ := returns_map.mp h
      exact Registry.mkNew_wellTyped (RecastM.returns_ofChecked.mp hmade).1 hzip

theorem node_sound (hself : Sound w.types self) (hincludes : w.config.NoIncludes)
    (hcoherent : w.config.Coherent) (hcustoms : w.config.CustomsTyped)
    (hvalid : w.options.ignoreValidations = false) : Sound w.types (w.node self) := by
  intro e o s s' h he
  cases e with
  | param p => exact param_wellTyped h
  | const v ty => exact const_wellTyped h
  | member target m => exact member_wellTyped hself hincludes hcoherent hcustoms h he
  | lambda params body ty => exact lambda_wellTyped hself h he
  | unary op operand ty => exact unary_wellTyped hself hvalid h he
  | binary op left right conversion ty => exact spine_wellTyped hself h he
  | cond test whenTrue whenFalse ty =>
      simp only [node, returns_bind] at h
      obtain ⟨c, s₁, hc, a, s₂, ha, b, s₃, hb, h⟩ := h
      split at h
      · obtain ⟨rfl, -⟩ := returns_pure.mp h
        exact he
      · obtain ⟨e, hmade, rfl⟩ := returns_map.mp h
        exact Registry.mkCond_wellTyped (RecastM.returns_ofChecked.mp hmade).1
          (hself hc (he.child (by simp [Expr.children])))
          (hself ha (he.child (by simp [Expr.children])))
          (hself hb (he.child (by simp [Expr.children])))
  | call target m args => exact call_wellTyped hself h he
  | new ty inits => exact construct_wellTyped hself h he
  | newArray ty items =>
      simp only [node, returns_bind] at h
      obtain ⟨⟨items', kept⟩, s₁, hitems, target, s₂, -, h⟩ := h
      dsimp only at h
      split at h
      · obtain ⟨rfl, -⟩ := returns_pure.mp h
        exact he
      · obtain ⟨e, hmade, rfl⟩ := returns_map.mp h
        exact Registry.mkNewArray_wellTyped (RecastM.returns_ofChecked.mp hmade).1
          (all_wellTyped hself hitems fun v hv => he.child hv)
  | typeIs operand tested ty =>
      simp only [node, returns_bind] at h
      obtain ⟨oo, s₁, hoo, target, s₂, -, h⟩ := h
      split at h
      · obtain ⟨rfl, -⟩ := returns_pure.mp h
        exact he
      · obtain ⟨rfl, -⟩ := returns_pure.mp h
        exact Registry.mkTypeIs_wellTyped (hself hoo (he.child (by simp [Expr.children])))
  | invoke f args ty =>
      simp only [node, returns_bind] at h
      obtain ⟨of, s₁, hof, ⟨args', kept⟩, s₂, hargs, h⟩ := h
      dsimp only at h
      split at h
      · obtain ⟨rfl, -⟩ := returns_pure.mp h
        exact he
      · obtain ⟨e, hmade, rfl⟩ := returns_map.mp h
        exact Registry.mkInvoke_wellTyped (RecastM.returns_ofChecked.mp hmade).1
          (hself hof (he.child (by simp [Expr.children])))
          (all_wellTyped hself hargs fun v hv => he.child (by simp [Expr.children, hv]))
  | default ty =>
      simp only [node, returns_bind, returns_pure] at h
      obtain ⟨target, s₁, -, rfl, -⟩ := h
      split <;> exact Registry.wellTyped_iff.mpr ⟨trivial, by simp [Outcome.on, Expr.children]⟩

theorem recastWithin_sound (hincludes : w.config.NoIncludes) (hcoherent : w.config.Coherent)
    (hcustoms : w.config.CustomsTyped) (hvalid : w.options.ignoreValidations = false) :
    ∀ n, Sound w.types (w.recastWithin n)
  | 0 => fun h _ => absurd h returns_throw
  | n + 1 =>
      node_sound (recastWithin_sound hincludes hcoherent hcustoms hvalid n) hincludes hcoherent
        hcustoms hvalid

end Recaster

/-! ## §5  Whole lambdas -/

namespace LambdaRecaster

variable {m : LambdaRecaster}

theorem unquoted_wellTyped {r : Registry} {e : Expr} (he : r.WellTyped e) :
    r.WellTyped (unquoted e) := by
  unfold unquoted
  split
  · exact he.child (by simp [Expr.children])
  · exact he

theorem fitTo_wellTyped {lambda e : Expr} {p : TyPair} (h : m.fitTo lambda p = .ok e)
    (hlambda : m.types.WellTyped lambda) : m.types.WellTyped e := by
  simp only [fitTo, Checked.bind_eq_ok] at h
  obtain ⟨⟨_, ret⟩, -, h⟩ := h
  dsimp only at h
  split at h
  · simp only [Checked.bind_eq_ok] at h
    obtain ⟨body', hbody', h⟩ := h
    refine Registry.mkLambdaTyped_wellTyped h ?_
    rename_i params body ty
    have hbody : m.types.WellTyped body := hlambda.child (by simp [Expr.children])
    unfold fitBody at hbody'
    split_ifs at hbody' with hassign hconvert
    · cases hbody'
      exact hbody
    · exact Registry.mkConvert_wellTyped hbody' hbody
  · cases h

theorem finish_wellTyped {e : Expr} {pair : Option TyPair} {o o' : Outcome}
    (h : m.finish e pair o = .ok o') (he : m.types.WellTyped e)
    (ho : m.types.WellTyped (o.on (unquoted e))) : m.types.WellTyped (o'.on e) := by
  simp only [finish, Checked.bind_eq_ok] at h
  obtain ⟨fitted, hfitted, h⟩ := h
  have hlambda : m.types.WellTyped (fitted.on (unquoted e)) := by
    cases pair with
    | none =>
        cases hfitted
        exact ho
    | some p =>
        simp only [fitOutcome, Functor.map, Except.map] at hfitted
        split at hfitted
        · cases hfitted
        · rename_i lambda hlambda
          cases hfitted
          exact fitTo_wellTyped hlambda ho
  split at h
  · simp only [Functor.map, Except.map] at h
    split at h
    · cases h
    · rename_i quoted hquoted
      cases h
      exact Registry.mkQuote_wellTyped hquoted hlambda
  · rename_i hquoted
    obtain rfl := Checked.pure_eq_ok.mp h
    have hsame : unquoted e = e := by
      unfold unquoted
      split
      · exact absurd rfl hquoted
      · rfl
    rwa [hsame] at hlambda

/-- Recasting is type sound: if every custom lambda is well typed over the source of its mapping,
a well-typed lambda is recast to a well-typed one. -/
theorem recast_wellTyped (hincludes : m.config.NoIncludes) (hcoherent : m.config.Coherent)
    (hcustoms : m.config.CustomsTyped) (hvalid : m.options.ignoreValidations = false) {e : Expr}
    {pair : Option TyPair} {asInclude : Bool} {o : Outcome} {s s' : RecastState}
    (he : m.types.WellTyped e) (h : Returns (m.recast e pair asInclude) s o s') :
    m.types.WellTyped (o.on e) := by
  obtain ⟨_, _, _, s₁, done, -, -, hdone, hfinish⟩ := returns_recast.mp h
  refine finish_wellTyped hfinish he ?_
  exact Recaster.recastWithin_sound hincludes hcoherent hcustoms hvalid _ hdone
    (unquoted_wellTyped he)

/-! ### An order whose label is read by a custom lambda -/

namespace Orders

def order : Ty := .declared 0

def model : Ty := .declared 1

def note : Member := ⟨"Note", .string⟩

def label : Member := ⟨"Label", .string⟩

def registry : Registry :=
  { declarations := [.record "Order" none [note], .record "OrderModel" none [label]] }

/-- `o => o.Note` -/
def readNote : Expr := Registry.mkLambda [⟨0, "o", order⟩] (.member (.param ⟨0, "o", order⟩) note)

def mapping : Mapping :=
  { source := order, destination := model, rules := [{ member := label, custom := some readNote }] }

def recaster : LambdaRecaster := { config := ⟨registry, [mapping]⟩, mapper := .keep }

/-- `m => m.Label == "x"` -/
def isX : Expr :=
  Registry.mkLambda [⟨1, "m", model⟩]
    (.binary .equal (.member (.param ⟨1, "m", model⟩) label) (.const (.str "x") .string) none
      .boolean)

/-- `m => m.Note == "x"` over the order. -/
def isXOnOrder : Expr :=
  Registry.mkLambda [⟨2, "m", order⟩]
    (.binary .equal (.member (.param ⟨2, "m", order⟩) note) (.const (.str "x") .string) none
      .boolean)

end Orders

open Orders in
theorem recast_wellTyped_orders : registry.WellTyped isXOnOrder := by
  refine recast_wellTyped (m := recaster) (o := .made isXOnOrder) (e := isX) ?_ ?_ ?_ rfl ?_
    (show Returns (recaster.recast isX none false) { fresh := 2 } _
      ((recaster.recast isX none false).run { fresh := 2 }).2 from rfl)
  · intro m hm
    obtain rfl := List.mem_singleton.mp hm
    exact ⟨rfl, rfl⟩
  · intro m hm
    obtain rfl := List.mem_singleton.mp hm
    refine ⟨fun name p hp => ?_, fun p hp => ?_⟩
    · obtain ⟨hmem, rfl⟩ := Mapping.ownRule?_mem hp
      obtain rfl := List.mem_singleton.mp hmem
      rfl
    · obtain rfl := List.mem_singleton.mp hp
      trivial
  · intro m hm
    obtain rfl := List.mem_singleton.mp hm
    refine ⟨fun p hp custom hcustom => ?_, fun p hp => by cases hp⟩
    obtain rfl := List.mem_singleton.mp hp
    obtain rfl := Option.some.inj hcustom
    refine ⟨⟨0, "o", order⟩, _, ⟨_, rfl⟩, ?_, rfl, ?_⟩
    · intro n hn
      simp only [readNote, Registry.mkLambda, Expr.nodes, List.mem_cons, List.not_mem_nil,
        or_false] at hn
      rcases hn with rfl | rfl | rfl
      · exact .inl rfl
      · rfl
      · trivial
    · intro q hq _
      simp only [Expr.nodes, List.mem_cons, List.not_mem_nil, or_false, reduceCtorEq, false_or,
        Expr.param.injEq] at hq
      rw [hq]
  · intro n hn
    simp only [isX, Registry.mkLambda, Expr.nodes, List.cons_append, List.nil_append,
      List.mem_cons, List.not_mem_nil, or_false] at hn
    rcases hn with rfl | rfl | rfl | rfl | rfl
    · exact .inl rfl
    · rfl
    · rfl
    · trivial
    · trivial

/-! ### Rules whose members their types do not have -/

/-- Without inclusions, with well-typed custom lambdas and with validation, well-typed lambdas are
recast to well-typed ones. -/
def KeepsTyping (m : LambdaRecaster) : Prop :=
  m.config.NoIncludes → m.config.CustomsTyped → m.options.ignoreValidations = false →
    ∀ ⦃e pair asInclude o s s'⦄, m.types.WellTyped e →
      Returns (m.recast e pair asInclude) s o s' → m.types.WellTyped (o.on e)

namespace Entries

def code (t : Ty) : Member := ⟨"Code", t⟩

/-- `m => m.Code` -/
def readCode (i : Nat) (t u : Ty) : Expr :=
  Registry.mkLambda [⟨i, "m", t⟩] (.member (.param ⟨i, "m", t⟩) (code u))

theorem readCode_wellTyped_iff {r : Registry} {i : Nat} {t u : Ty} :
    r.WellTyped (readCode i t u) ↔ r.member? t "Code" = some (code u) := by
  have hmember : r.NodeTyped (.member (.param ⟨i, "m", t⟩) (code u)) ↔
      r.member? t "Code" = some (code u) := Registry.nodeTyped_member
  constructor
  · intro h
    exact hmember.mp (h _ (List.mem_cons_of_mem _ List.mem_cons_self))
  · intro h
    refine List.forall_mem_cons.mpr ⟨.inl rfl, List.forall_mem_cons.mpr ⟨hmember.mpr h, ?_⟩⟩
    exact List.forall_mem_singleton.mpr trivial

/-- If reading a code is recast to reading a member that the data type does not have, typing is
not kept. -/
theorem not_keepsTyping {c : Configuration} (t t' u u' : Ty)
    (hplain : ∀ m ∈ c.maps, m.bases = [] ∧ m.derived = [] ∧ m.pathRules = [] ∧
      ∀ p ∈ m.rules, p.custom = none)
    (hwell : c.types.member? t "Code" = some (code u))
    (hrecast : (((ofConfig c {}).recast (readCode 0 t u) none false).run { fresh := 1 }).1 =
      .ok (.made (readCode 1 t' u')))
    (hill : c.types.member? t' "Code" ≠ some (code u')) : ¬ KeepsTyping (ofConfig c {}) := by
  intro h
  have hcustoms : c.CustomsTyped := by
    intro m hm
    obtain ⟨-, -, hpaths, hrules⟩ := hplain m hm
    refine ⟨fun p hp custom hcustom => ?_, fun p hp => ?_⟩
    · rw [hrules p hp] at hcustom
      cases hcustom
    · rw [hpaths] at hp
      cases hp
  have hincludes : c.NoIncludes := fun m hm => ⟨(hplain m hm).1, (hplain m hm).2.1⟩
  have hreturns : Returns ((ofConfig c {}).recast (readCode 0 t u) none false) { fresh := 1 }
      (.made (readCode 1 t' u'))
      (((ofConfig c {}).recast (readCode 0 t u) none false).run { fresh := 1 }).2 :=
    Prod.ext hrecast rfl
  exact hill (readCode_wellTyped_iff.mp
    (h hincludes hcustoms rfl (readCode_wellTyped_iff.mpr hwell) hreturns))

def entry : Ty := .declared 0

/-- Two members of one name, the first of which is found. -/
def twofold : Ty := .anonymous [code .int32, code .string]

def registry (t : Ty) : Registry :=
  { declarations := [.record "Entry" none [code t], .record "EntryModel" none [code t]] }

def pair : TyPair := ⟨entry, twofold⟩

def calls : List Plan.Call := [.start pair, .leaveOut pair "Code", .alsoReverse pair]

/-- The first of the two members is left out, and the second is read by convention. -/
def forward : Mapping :=
  { source := entry
    destination := twofold
    rules := [{ member := code .int32, ignored := true },
      { member := code .string, source := [code .string] }] }

def back : Mapping :=
  { source := twofold
    destination := entry
    rules := [{ member := code .string, source := [code .string] }] }

def model : Ty := .declared 1

def plain : Mapping :=
  { source := entry
    destination := model
    rules := [{ member := code .int32, source := [code .int32] }] }

def reversible : Configuration := ⟨registry .string, [forward, back]⟩

def simple : Configuration := ⟨registry .int32, [plain]⟩

def redefined : Configuration :=
  { simple with types := simple.types.define entry none [code .string] }

theorem reversible_planned : (Plan.run (registry .string) calls).finish 0 = .ok (reversible, 2) :=
  rfl

theorem simple_planned :
    (Plan.run (registry .int32) [.start ⟨entry, model⟩]).finish 0 = .ok (simple, 0) := rfl

theorem not_keepsTyping_reversible : ¬ KeepsTyping (ofConfig reversible {}) := by
  refine not_keepsTyping entry twofold .string .string ?_ rfl rfl (by decide)
  simp [reversible, forward, back]

theorem not_keepsTyping_redefined : ¬ KeepsTyping (ofConfig redefined {}) := by
  refine not_keepsTyping model entry .int32 .int32 ?_ rfl rfl (by decide)
  simp [redefined, simple, plain]

end Entries

open Entries in
/-- The members of the rules have to be those of the types.  A rule may read the second of two
members of one name, and a record may be redefined when the configuration has been planned. -/
theorem recast_wellTyped_fails :
    (¬ ∀ r calls n n' c options, (Plan.run r calls).finish n = .ok (c, n') →
      KeepsTyping (ofConfig c options)) ∧
    ¬ ∀ r calls n n' c t base members options, (Plan.run r calls).finish n = .ok (c, n') →
      KeepsTyping (ofConfig { c with types := c.types.define t base members } options) := by
  refine ⟨fun h => ?_, fun h => ?_⟩
  · exact not_keepsTyping_reversible (h _ _ _ _ reversible {} reversible_planned)
  · exact not_keepsTyping_redefined
      (h _ _ _ _ simple entry none [code .string] {} simple_planned)

end LambdaRecaster

end Recast
