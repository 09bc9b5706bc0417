import Recast.Proofs.Nodes
import Recast.Proofs.Run

/-! # What every run keeps

A computation may end well or fail; either way it leaves a state behind.
`Evolves` says that this state is always related to the one before, and a relation
that every step of recasting respects is respected by recasting as a whole
(`Recaster.Respects.recastWithin`).
-/

namespace Recast

/-! ## §1  Computations -/

/-- A relation between earlier and later states. -/
structure Progress {σ : Type} (R : σ → σ → Prop) : Prop where
  refl : ∀ s, R s s
  trans : ∀ {s t u}, R s t → R t u → R s u

/-- Wherever the computation starts, and whether it fails or not, it ends in a related state. -/
def Evolves {ε σ α : Type} (R : σ → σ → Prop) (x : ExceptT ε (StateM σ) α) : Prop :=
  ∀ s, R s (x.run s).2

section Computations

variable {ε σ α β : Type} {R : σ → σ → Prop} {x y : ExceptT ε (StateM σ) α}

theorem Evolves.of_returns (h : Evolves R x) {s s' : σ} {a : α} (hx : Returns x s a s') :
    R s s' := by
  have hs := h s
  rw [hx] at hs
  exact hs

theorem Evolves.ite {p : Prop} [Decidable p] (hx : Evolves R x) (hy : Evolves R y) :
    Evolves R (if p then x else y) := by
  split
  · exact hx
  · exact hy

namespace Progress

variable (hR : Progress R)
include hR

theorem pure (a : α) : Evolves R (Pure.pure a : ExceptT ε (StateM σ) α) := fun s => hR.refl s

theorem throw (e : ε) : Evolves R (MonadExcept.throw e : ExceptT ε (StateM σ) α) :=
  fun s => hR.refl s

theorem get : Evolves R (MonadState.get : ExceptT ε (StateM σ) σ) := fun s => hR.refl s

theorem bind {f : α → ExceptT ε (StateM σ) β} (hx : Evolves R x) (hf : ∀ a, Evolves R (f a)) :
    Evolves R (x >>= f) := by
  intro s
  have hs := hx s
  rw [run_bind]
  rcases hrun : x.run s with ⟨_ | a, s'⟩
  · rw [hrun] at hs
    exact hs
  · rw [hrun] at hs
    exact hR.trans hs (hf a s')

theorem map {f : α → β} (hx : Evolves R x) : Evolves R (f <$> x) := by
  rw [map_eq_pure_bind]
  exact hR.bind hx fun a => hR.pure (f a)

end Progress

end Computations

theorem Progress.checked {R : RecastState → RecastState → Prop} (hR : Progress R) {α : Type}
    (x : Checked α) : Evolves R (RecastM.ofChecked x) := by
  cases x with
  | error e => exact hR.throw e
  | ok a => exact hR.pure a

theorem Progress.checkedTable {R : TypeTable → TypeTable → Prop} (hR : Progress R) {α : Type}
    (x : Checked α) : Evolves R (TableM.ofChecked x) := by
  cases x with
  | error e => exact hR.throw e
  | ok a => exact hR.pure a

/-- A relation between states through their tables. -/
theorem evolves_onTable {R : TypeTable → TypeTable → Prop} {R' : RecastState → RecastState → Prop}
    {α : Type} {x : TableM α} (hx : Evolves R x)
    (hR : ∀ (s : RecastState) t, R s.table t → R' s { s with table := t }) :
    Evolves R' (RecastM.onTable x) :=
  fun s => hR s _ (hx s.table)

/-! ## §2  Recasting -/

/-- Only these parameters occur in the expression. -/
def Expr.Within (known : Parameter → Prop) (e : Expr) : Prop := ∀ p ∈ e.parameters, known p

section Within

variable {known : Parameter → Prop} {e : Expr}

theorem Expr.Within.child {c : Expr} (h : e.Within known) (hc : c ∈ e.children) :
    c.Within known :=
  fun p hp => h p (parameters_subset_of_child hc hp)

theorem Expr.Within.named (h : e.Within known) : ∀ p ∈ e.named, known p :=
  fun p hp => h p (e.named_subset_parameters hp)

theorem Expr.Within.chainBase (h : e.Within known) : e.chainBase.Within known :=
  fun p hp => h p (e.parameters_chainBase hp)

end Within

namespace Recaster

/-- Every step of recasting an expression with these parameters leads to a related state. -/
structure Respects (w : Recaster) (known : Parameter → Prop)
    (R : RecastState → RecastState → Prop) : Prop extends Progress R where
  dataType : ∀ model, Evolves R (w.dataType model)
  relate : ∀ model data, Evolves R (w.relate model data)
  dataPath : ∀ model data path limit,
    Evolves R (RecastM.onTable (w.config.dataPath model data path limit))
  noteBuilt : ∀ ts, Evolves R (RecastM.noteBuilt ts)
  replace : ∀ p, known p → Evolves R (w.replace p)

namespace Respects

variable {w : Recaster} {known : Parameter → Prop} {R : RecastState → RecastState → Prop}
  (hR : w.Respects known R)
include hR

theorem dataTypes : ∀ ts, Evolves R (w.dataTypes ts)
  | [] => hR.pure _
  | t :: ts => hR.bind (hR.dataType t) fun _ => hR.bind (dataTypes ts) fun _ => hR.pure _

theorem replaceAll : ∀ ps, (∀ p ∈ ps, known p) → Evolves R (w.replaceAll ps)
  | [], _ => hR.pure _
  | p :: ps, h =>
      hR.bind (hR.replace p (h p List.mem_cons_self)) fun _ =>
        hR.bind (replaceAll ps fun q hq => h q (List.mem_cons_of_mem p hq)) fun _ => hR.pure _

theorem constantAs (v : Value) (source target : Ty) : Evolves R (w.constantAs v source target) := by
  unfold Recaster.constantAs
  split
  · exact hR.pure _
  · exact hR.throw _

theorem settle (model : Ty) (custom : Bool) (walked : Expr) :
    Evolves R (w.settle model custom walked) :=
  .ite (hR.checked _) (hR.bind (hR.relate _ _) fun _ => hR.pure _)

theorem conversionTarget (op : UnaryOp) (ty : Ty) : Evolves R (w.conversionTarget op ty) :=
  .ite (hR.dataType _) (hR.pure _)

theorem rebuildUnary (op : UnaryOp) (operand : Expr) (ty target : Ty) :
    Evolves R (w.rebuildUnary op operand ty target) :=
  .ite (.ite (hR.pure _) (hR.map (hR.dataType _))) (.ite (hR.checked _) (hR.checked _))

theorem reclose (m : Method) (args : List Expr) : Evolves R (w.reclose m args) := by
  refine .ite (hR.pure _) (hR.bind (hR.dataTypes _) fun _ => hR.bind (hR.noteBuilt _) fun _ => ?_)
  split
  · exact hR.pure _
  · split
    · exact hR.bind (hR.noteBuilt _) fun _ => hR.pure _
    · exact hR.throw _

section Nodes

variable {self : Expr → RecastM Outcome} (hself : ∀ e, e.Within known → Evolves R (self e))
include hself

theorem member (e : Expr) (he : e.Within known) : Evolves R (w.member self e) :=
  hR.bind (hself _ he.chainBase) fun _ => hR.bind (hR.dataPath _ _ _ _) fun _ =>
    .ite (hR.pure _) (hR.bind (hR.checked _) fun _ => hR.bind (hR.settle _ _ _) fun _ =>
      .ite (hR.map (hR.checked _)) (hR.pure _))

theorem all : ∀ es : List Expr, (∀ e ∈ es, e.Within known) → Evolves R (all self es)
  | [], _ => hR.pure _
  | e :: es, h => hR.bind (hself e (h e List.mem_cons_self)) fun _ =>
      hR.bind (all es fun x hx => h x (List.mem_cons_of_mem e hx)) fun _ => hR.pure _

theorem optional : ∀ e? : Option Expr, (∀ e ∈ e?, e.Within known) → Evolves R (optional self e?)
  | none, _ => hR.pure _
  | some e, h => hR.bind (hself e (h e rfl)) fun _ => hR.pure _

theorem lambda (params : List Parameter) (body : Expr) (hparams : ∀ p ∈ params, known p)
    (hbody : body.Within known) : Evolves R (w.lambda self params body) :=
  hR.bind (hR.replaceAll _ hparams) fun _ => hR.bind (hself _ hbody) fun _ =>
    .ite (hR.pure _) (hR.pure _)

theorem operand (op : UnaryOp) (e : Expr) (ty : Ty) (he : e.Within known) :
    Evolves R (w.operand self op e ty) :=
  hR.bind (hself _ he) fun _ => .ite (.ite (hR.pure _) (hR.map (hR.checked _)))
    (hR.bind (hR.conversionTarget _ _) fun _ =>
      .ite (hR.pure _) (hR.map (hR.rebuildUnary _ _ _ _)))

theorem unary (op : UnaryOp) (e : Expr) (ty : Ty) (he : e.Within known) :
    Evolves R (w.unary self op e ty) := by
  unfold Recaster.unary
  split
  · exact hR.bind (hR.dataType _) fun _ =>
      .ite (hR.map (hR.constantAs _ _ _)) (hR.operand hself _ _ _ he)
  · exact hR.operand hself _ _ _ he

theorem operands (left right : Expr) (hleft : left.Within known) (hright : right.Within known) :
    ∀ leftDone, Evolves R (operands self left right leftDone)
  | some _ => hR.bind (hself _ hright) fun _ => hR.pure _
  | none =>
      .ite (hR.bind (hself _ hright) fun _ => hR.bind (hself _ hleft) fun _ => hR.pure _)
        (hR.bind (hself _ hleft) fun _ => hR.bind (hself _ hright) fun _ => hR.pure _)

theorem binaryNode (op : BinaryOp) (left right : Expr) (conversion : Option Expr) (ty : Ty)
    (he : (Expr.binary op left right conversion ty).Within known) (leftDone : Option Outcome) :
    Evolves R (w.binaryNode self op left right conversion leftDone) := by
  have hleft : left.Within known := he.child (by simp [Expr.children])
  have hright : right.Within known := he.child (by simp [Expr.children])
  refine hR.bind (hR.operands hself _ _ hleft hright _) fun _ =>
    hR.bind (hR.optional hself _ fun c hc => ?_) fun _ => .ite (hR.pure _) (hR.map (hR.checked _))
  exact he.child (by simp [Expr.children, Option.mem_def.mp hc])

theorem spine (e : Expr) : e.Within known → Evolves R (w.spine self e) := by
  induction e using Recaster.spine.induct with
  | case1 op left right conversion t hleft ih =>
      intro he
      rw [Recaster.spine, if_pos hleft]
      exact hR.bind (ih (he.child (by simp [Expr.children]))) fun _ =>
        hR.binaryNode hself _ _ _ _ t he _
  | case2 op left right conversion t hleft =>
      intro he
      rw [Recaster.spine, if_neg hleft]
      exact hR.binaryNode hself _ _ _ _ t he _
  | case3 e hbinary =>
      intro he
      rw [Recaster.spine]
      · exact hself e he
      · exact hbinary

theorem arguments : ∀ es : List Expr, (∀ e ∈ es, e.Within known) → Evolves R (w.arguments self es)
  | [], _ => hR.pure _
  | e :: es, h => hR.bind (hself e (h e List.mem_cons_self)) fun _ =>
      hR.bind (hR.relate _ _) fun _ =>
        hR.bind (arguments es fun x hx => h x (List.mem_cons_of_mem e hx)) fun _ => hR.pure _

theorem call (target : Option Expr) (m : Method) (args : List Expr)
    (he : (Expr.call target m args).Within known) : Evolves R (w.call self target m args) := by
  have hargs : ∀ e ∈ args, e.Within known := fun e hargs =>
    he.child (by simp [Expr.children, hargs])
  refine hR.bind (hR.optional hself _ fun e ht => ?_) fun _ =>
    hR.bind (hR.arguments hself _ hargs) fun _ =>
      .ite (hR.pure _) (hR.bind (hR.reclose _ _) fun _ => hR.bind (hR.checked _) fun _ =>
        hR.map (hR.checked _))
  exact he.child (by simp [Expr.children, Option.mem_def.mp ht])

theorem construct (ty : Ty) (inits : List (String × Expr))
    (he : (Expr.new ty inits).Within known) : Evolves R (w.construct self ty inits) :=
  hR.bind (hR.all hself _ fun _ hc => he.child hc) fun _ => .ite (hR.pure _)
    (hR.bind (hR.dataType _) fun _ =>
      .ite (.ite (hR.pure _) (hR.map (hR.checked _))) (hR.map (hR.checked _)))

theorem node (e : Expr) (he : e.Within known) : Evolves R (w.node self e) := by
  have hbelow : ∀ c ∈ e.children, Evolves R (self c) := fun c hc => hself c (he.child hc)
  cases e with
  | param p =>
      exact hR.bind (hR.replace p (he.named p List.mem_cons_self)) fun _ => hR.pure _
  | const v ty =>
      exact hR.bind (hR.dataType ty) fun _ => .ite (hR.pure _) (hR.map (hR.constantAs _ _ _))
  | member target m => exact hR.member hself _ he
  | lambda params body ty =>
      exact hR.lambda hself _ _ he.named (he.child (by simp [Expr.children]))
  | unary op operand ty => exact hR.unary hself _ _ _ (he.child (by simp [Expr.children]))
  | binary op left right conversion ty => exact hR.spine hself _ he
  | cond test whenTrue whenFalse ty =>
      exact hR.bind (hbelow test (by simp [Expr.children])) fun _ =>
        hR.bind (hbelow whenTrue (by simp [Expr.children])) fun _ =>
          hR.bind (hbelow whenFalse (by simp [Expr.children])) fun _ =>
            .ite (hR.pure _) (hR.map (hR.checked _))
  | call target m args => exact hR.call hself _ _ _ he
  | new ty inits => exact hR.construct hself _ _ he
  | newArray ty items =>
      exact hR.bind (hR.all hself _ fun _ hc => he.child hc) fun _ =>
        hR.bind (hR.dataType _) fun _ => .ite (hR.pure _) (hR.map (hR.checked _))
  | typeIs operand tested ty =>
      exact hR.bind (hbelow operand (by simp [Expr.children])) fun _ =>
        hR.bind (hR.dataType _) fun _ => .ite (hR.pure _) (hR.pure _)
  | invoke f args ty =>
      exact hR.bind (hbelow f (by simp [Expr.children])) fun _ =>
        hR.bind (hR.all hself _ fun _ hc => he.child (by simp [Expr.children, hc])) fun _ =>
          .ite (hR.pure _) (hR.map (hR.checked _))
  | default ty => exact hR.bind (hR.dataType ty) fun _ => hR.pure _

end Nodes

/-- What every step respects is respected to any depth. -/
theorem recastWithin : ∀ n (e : Expr), e.Within known → Evolves R (w.recastWithin n e)
  | 0, _, _ => hR.throw _
  | n + 1, e, he => hR.node (recastWithin n) e he

end Respects

end Recaster

/-! ## §3  Whole lambdas -/

namespace LambdaRecaster

/-- The expression inside one quote has no other parameters. -/
theorem within_unquoted {known : Parameter → Prop} {e : Expr} (he : e.Within known) : (unquoted e).Within known := by
  unfold unquoted
  split
  · exact he.child (by simp [Expr.children])
  · exact he

variable {m : LambdaRecaster} {asInclude : Bool} {known : Parameter → Prop}
  {R : RecastState → RecastState → Prop}
  (hR : Recaster.Respects ⟨m.config, m.mapper, m.options, asInclude⟩ known R)
include hR

theorem evolves_relateAll : ∀ pairs, Evolves R (m.relateAll pairs)
  | [] => hR.pure _
  | _ :: pairs => hR.bind (hR.relate _ _) fun _ => evolves_relateAll pairs

theorem evolves_seedPair (p : TyPair) (arity : Nat) : Evolves R (m.seedPair p arity) :=
  hR.bind (hR.checked _) fun _ => hR.bind (hR.checked _) fun _ =>
    .ite (hR.throw _) (.ite (hR.throw _) (evolves_relateAll hR _))

theorem evolves_seedOnly (model : Ty) : Evolves R (m.seedOnly model) := by
  refine hR.bind (hR.checked _) fun source => ?_
  cases source with
  | none => exact hR.pure _
  | some data => exact hR.relate _ _

theorem evolves_seedUnique : ∀ ps, Evolves R (m.seedUnique ps)
  | [] => hR.pure _
  | _ :: ps => hR.bind hR.get fun _ => .ite (evolves_seedUnique ps)
      (hR.bind (evolves_seedOnly hR _) fun _ => evolves_seedUnique ps)

theorem evolves_seed (params : List Parameter) : ∀ pair, Evolves R (m.seed params pair)
  | some _ => evolves_seedPair hR _ _
  | none => evolves_seedUnique hR _

/-- What every step respects, and forgetting the replacements does, a recasting respects. -/
theorem evolves_recast (hclear : ∀ s, R s { s with replacements := {} }) (e : Expr)
    (he : e.Within known) (pair : Option TyPair) : Evolves R (m.recast e pair asInclude) := by
  unfold recast
  split
  · exact hR.throw _
  · exact hR.bind (evolves_seed hR _ _) fun _ => hR.bind hclear fun _ =>
      hR.bind (hR.recastWithin _ _ (within_unquoted he)) fun _ => hR.checked _

end LambdaRecaster

end Recast
