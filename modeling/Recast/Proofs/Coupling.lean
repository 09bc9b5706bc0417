import Recast.Proofs.Nodes
import Recast.Proofs.Run

/-! # Recastings side by side

Two recastings with different options, or with different ways to recast the nodes below, do
the same steps wherever neither option is read.  A relation that holds of these steps and is
kept by sequencing holds of the rules for nodes as soon as it holds of what they differ in.

- `Coupling` — such a relation.
- `Coupling.node`, `Coupling.spine`, `Coupling.anyNode` — the rules for nodes.
- `LambdaRecaster.seed_withOptions` — what a recasting starts from does not depend on options.
-/

namespace Recast

def Recaster.withOptions (w : Recaster) (o : RecastOptions) : Recaster := { w with options := o }

def LambdaRecaster.withOptions (m : LambdaRecaster) (o : RecastOptions) : LambdaRecaster :=
  { m with options := o }

/-- A relation between computations that holds of the steps of recasting and is kept by
sequencing. -/
structure Coupling (w : Recaster) (R : {α : Type} → RecastM α → RecastM α → Prop) : Prop where
  pure : ∀ {α : Type} (a : α), R (pure a : RecastM α) (pure a)
  throw : ∀ {α : Type} (e : MappingError), R (throw e : RecastM α) (throw e)
  bind : ∀ {α β : Type} {x y : RecastM α} {f g : α → RecastM β},
    R x y → (∀ a, R (f a) (g a)) → R (x >>= f) (y >>= g)
  dataType : ∀ t, R (w.dataType t) (w.dataType t)
  replace : ∀ p, R (w.replace p) (w.replace p)
  relate : ∀ model data, R (w.relate model data) (w.relate model data)
  noteBuilt : ∀ ts, R (RecastM.noteBuilt ts) (RecastM.noteBuilt ts)

namespace Recaster

variable {w : Recaster} {o : RecastOptions}

theorem walk_withOptions : ∀ {steps : List DataStep} {e : Expr},
    (w.withOptions o).walk e steps = w.walk e steps
  | [], _ => rfl
  | .members ms :: _, e => walk_withOptions (e := e.select ms)
  | .custom _ :: _, _ => bind_congr fun _ => walk_withOptions

theorem fitArguments_withOptions : ∀ {args : List Expr} {params : List Ty},
    (w.withOptions o).fitArguments args params = w.fitArguments args params
  | [], [] | [], _ :: _ | _ :: _, [] => rfl
  | _ :: _, _ :: _ => bind_congr fun _ => by rw [fitArguments_withOptions]

end Recaster

namespace Coupling

open Recaster

variable {w : Recaster} {R : {α : Type} → RecastM α → RecastM α → Prop} (hR : Coupling w R)
  {o o' : RecastOptions} {self self' : Expr → RecastM Outcome}

include hR

/-! ## §1  Steps -/

theorem map {α β : Type} {x y : RecastM α} {f : α → β} (h : R x y) : R (f <$> x) (f <$> y) := by
  rw [map_eq_pure_bind, map_eq_pure_bind]
  exact hR.bind h fun a => hR.pure (f a)

theorem checked {α : Type} (x : Checked α) : R (RecastM.ofChecked x) (RecastM.ofChecked x) := by
  cases x with
  | error e => exact hR.throw e
  | ok a => exact hR.pure a

omit hR in
theorem ite {α : Type} {p : Prop} {d d' : Decidable p} {x y x' y' : RecastM α} (hx : R x x')
    (hy : R y y') : R (@ite _ p d x y) (@ite _ p d' x' y') := by
  by_cases hp : p
  · rwa [if_pos hp, if_pos hp]
  · rwa [if_neg hp, if_neg hp]

theorem made (x : Checked Expr) :
    R (.made <$> RecastM.ofChecked x : RecastM Outcome) (.made <$> RecastM.ofChecked x) :=
  hR.map (hR.checked x)

theorem dataTypes : ∀ {ts : List Ty},
    R ((w.withOptions o).dataTypes ts) ((w.withOptions o').dataTypes ts)
  | [] => hR.pure _
  | t :: _ => hR.bind (hR.dataType t) fun _ => hR.bind dataTypes fun _ => hR.pure _

theorem replaceAll : ∀ {ps : List Parameter},
    R ((w.withOptions o).replaceAll ps) ((w.withOptions o').replaceAll ps)
  | [] => hR.pure _
  | p :: _ => hR.bind (hR.replace p) fun _ => hR.bind replaceAll fun _ => hR.pure _

theorem constantAs {v : Value} {source target : Ty} :
    R (w.constantAs v source target) (w.constantAs v source target) := by
  unfold Recaster.constantAs
  split
  · exact hR.pure _
  · exact hR.throw _

theorem settle {model : Ty} {custom : Bool} {walked : Expr} :
    R (w.settle model custom walked) (w.settle model custom walked) := by
  exact ite (hR.checked _) (hR.bind (hR.relate _ _) fun _ => hR.pure _)

/-! ## §2  Lists of nodes -/

theorem all : ∀ {es : List Expr}, (∀ e ∈ es, R (self e) (self' e)) →
    R (all self es) (all self' es)
  | [], _ => hR.pure _
  | e :: _, h =>
      hR.bind (h e List.mem_cons_self) fun _ =>
        hR.bind (all fun e he => h e (List.mem_cons_of_mem _ he)) fun _ => hR.pure _

theorem optional : ∀ {e : Option Expr}, (∀ x ∈ e, R (self x) (self' x)) →
    R (optional self e) (optional self' e)
  | none, _ => hR.pure _
  | some e, h => hR.bind (h e rfl) fun _ => hR.pure _

theorem arguments : ∀ {es : List Expr}, (∀ e ∈ es, R (self e) (self' e)) →
    R ((w.withOptions o).arguments self es) ((w.withOptions o').arguments self' es)
  | [], _ => hR.pure _
  | e :: _, h =>
      hR.bind (h e List.mem_cons_self) fun _ => hR.bind (hR.relate _ _) fun _ =>
        hR.bind (arguments fun e he => h e (List.mem_cons_of_mem _ he)) fun _ => hR.pure _

/-! ## §3  Nodes -/

/-- Member accesses read the depth limit, which bounds the steps of a path. -/
theorem member {e : Expr} (hbase : R (self e.chainBase) (self' e.chainBase))
    (hpath : ∀ data,
      R (RecastM.onTable (w.config.dataPath e.chainBase.ty data e.chainNames o.maxDepth))
        (RecastM.onTable (w.config.dataPath e.chainBase.ty data e.chainNames o'.maxDepth))) :
    R ((w.withOptions o).member self e) ((w.withOptions o').member self' e) := by
  refine hR.bind hbase fun out => hR.bind (hpath (out.on e.chainBase).ty) fun steps => ?_
  simp only [walk_withOptions]
  refine ite (hR.pure _) (hR.bind (hR.checked _) fun walked => hR.bind hR.settle fun rebuilt => ?_)
  exact ite (hR.made _) (hR.pure _)

theorem const {v : Value} {t : Ty} : R (w.const v t) (w.const v t) := by
  exact hR.bind (hR.dataType t) fun target => ite (hR.pure _) (hR.map hR.constantAs)

theorem lambda {params : List Parameter} {body : Expr} (h : R (self body) (self' body)) :
    R ((w.withOptions o).lambda self params body)
      ((w.withOptions o').lambda self' params body) := by
  exact hR.bind hR.replaceAll fun params' => hR.bind h fun out => ite (hR.pure _) (hR.pure _)

/-- Over a recast operand, unary nodes are built the same way if both options say the same. -/
theorem rebuildUnary {op : UnaryOp} {operand : Expr} {t target : Ty}
    (hignore : o.ignoreValidations = o'.ignoreValidations) :
    R ((w.withOptions o).rebuildUnary op operand t target)
      ((w.withOptions o').rebuildUnary op operand t target) := by
  unfold Recaster.rebuildUnary
  rw [show (w.withOptions o).options.ignoreValidations = o'.ignoreValidations from hignore]
  exact ite (ite (hR.pure _) (hR.map (hR.dataType t))) (ite (hR.checked _) (hR.checked _))

theorem operand {op : UnaryOp} {e : Expr} {t : Ty} (h : R (self e) (self' e))
    (hrebuild : op ≠ .quote → ∀ operand target, R
      ((w.withOptions o).rebuildUnary op operand t target)
      ((w.withOptions o').rebuildUnary op operand t target)) :
    R ((w.withOptions o).operand self op e t) ((w.withOptions o').operand self' op e t) := by
  refine hR.bind h fun out => ?_
  by_cases hop : op = .quote
  · rw [if_pos hop, if_pos hop]
    exact ite (hR.pure _) (hR.made _)
  · rw [if_neg hop, if_neg hop]
    have htarget : R ((w.withOptions o).conversionTarget op t)
        ((w.withOptions o').conversionTarget op t) := ite (hR.dataType t) (hR.pure t)
    exact hR.bind htarget fun target => ite (hR.pure _) (hR.map (hrebuild hop _ target))

theorem unary {op : UnaryOp} {e : Expr} {t : Ty} (h : R (self e) (self' e))
    (hrebuild : op ≠ .quote → ∀ operand target, R
      ((w.withOptions o).rebuildUnary op operand t target)
      ((w.withOptions o').rebuildUnary op operand t target)) :
    R ((w.withOptions o).unary self op e t) ((w.withOptions o').unary self' op e t) := by
  unfold Recaster.unary
  split
  · exact hR.bind (hR.dataType t) fun target =>
      ite (hR.map hR.constantAs) (hR.operand h hrebuild)
  · exact hR.operand h hrebuild

theorem operands {left right : Expr} {done : Option Outcome}
    (hleft : done = none → R (self left) (self' left)) (hright : R (self right) (self' right)) :
    R (operands self left right done) (operands self' left right done) := by
  unfold Recaster.operands
  split
  · exact hR.bind hright fun _ => hR.pure _
  · split
    · exact hR.bind hright fun _ => hR.bind (hleft rfl) fun _ => hR.pure _
    · exact hR.bind (hleft rfl) fun _ => hR.bind hright fun _ => hR.pure _

theorem binaryNode {op : BinaryOp} {left right : Expr} {conversion : Option Expr}
    {done : Option Outcome} (hleft : done = none → R (self left) (self' left))
    (hright : R (self right) (self' right)) (hconversion : ∀ c ∈ conversion, R (self c) (self' c)) :
    R ((w.withOptions o).binaryNode self op left right conversion done)
      ((w.withOptions o').binaryNode self' op left right conversion done) := by
  exact hR.bind (hR.operands hleft hright) fun (l, r) =>
    hR.bind (hR.optional hconversion) fun (conversion', kept) => ite (hR.pure _) (hR.made _)

theorem spine (hself : ∀ x, R (self x) (self' x)) {e : Expr} :
    R ((w.withOptions o).spine self e) ((w.withOptions o').spine self' e) := by
  fun_induction Recaster.spine (w.withOptions o) self e with
  | case1 op left right conversion t hleft ih =>
      rw [Recaster.spine, if_pos hleft]
      exact hR.bind ih fun _ =>
        hR.binaryNode (fun h => by cases h) (hself right) fun c _ => hself c
  | case2 op left right conversion t hleft =>
      rw [Recaster.spine, if_neg hleft]
      exact hR.binaryNode (fun _ => hself left) (hself right) fun c _ => hself c
  | case3 e hbinary =>
      rw [Recaster.spine]
      · exact hself e
      · exact hbinary

theorem reclose {m : Method} {args : List Expr} :
    R ((w.withOptions o).reclose m args) ((w.withOptions o').reclose m args) := by
  unfold Recaster.reclose
  split
  · exact hR.pure _
  · refine hR.bind hR.dataTypes fun typeArgs => hR.bind (hR.noteBuilt _) fun _ => ?_
    dsimp only [Recaster.fits, Recaster.types, Recaster.withOptions]
    split
    · exact hR.pure _
    · split
      · exact hR.bind (hR.noteBuilt _) fun _ => hR.pure _
      · exact hR.throw _

theorem call {target : Option Expr} {m : Method} {args : List Expr}
    (htarget : ∀ e ∈ target, R (self e) (self' e)) (hargs : ∀ e ∈ args, R (self e) (self' e)) :
    R ((w.withOptions o).call self target m args)
      ((w.withOptions o').call self' target m args) := by
  refine hR.bind (hR.optional htarget) fun (target', targetKept) =>
    hR.bind (hR.arguments hargs) fun (args', argsKept) =>
      ite (hR.pure _) (hR.bind hR.reclose fun m' => ?_)
  rw [fitArguments_withOptions, fitArguments_withOptions]
  exact hR.bind (hR.checked _) fun fitted => hR.made _

theorem construct {t : Ty} {inits : List (String × Expr)}
    (h : ∀ e ∈ inits.map (·.2), R (self e) (self' e)) :
    R ((w.withOptions o).construct self t inits) ((w.withOptions o').construct self' t inits) := by
  refine hR.bind (hR.all h) fun (values, kept) => ite (hR.pure _) ?_
  exact hR.bind (hR.dataType t) fun target => ite (ite (hR.pure _) (hR.made _)) (hR.made _)

/-- A node that is no binary operator, by what is read of the options and by the nodes below. -/
theorem node {e : Expr} (hbinary : e.isBinary = false)
    (hchild : ∀ c ∈ e.children, R (self c) (self' c))
    (hmember : e.isMember = true →
      R ((w.withOptions o).member self e) ((w.withOptions o').member self' e))
    (hunary : ∀ op x t, e = .unary op x t →
      R ((w.withOptions o).unary self op x t) ((w.withOptions o').unary self' op x t)) :
    R ((w.withOptions o).node self e) ((w.withOptions o').node self' e) := by
  cases e with
  | param p => exact hR.bind (hR.replace p) fun p' => hR.pure _
  | const v t => exact hR.const
  | member e m => exact hmember rfl
  | lambda params body t => exact hR.lambda (hchild body (by simp [Expr.children]))
  | unary op e t => exact hunary op e t rfl
  | binary op l r c t => cases hbinary
  | cond c a b t =>
      exact hR.bind (hchild c (by simp [Expr.children])) fun c' =>
        hR.bind (hchild a (by simp [Expr.children])) fun a' =>
          hR.bind (hchild b (by simp [Expr.children])) fun b' => ite (hR.pure _) (hR.made _)
  | call target m args =>
      exact hR.call (fun x hx => hchild x (by simp_all [Expr.children]))
        fun x hx => hchild x (by simp [Expr.children, hx])
  | new t inits => exact hR.construct hchild
  | newArray t items =>
      exact hR.bind (hR.all hchild) fun (items', kept) => hR.bind (hR.dataType _) fun target =>
        ite (hR.pure _) (hR.made _)
  | typeIs e tested t =>
      exact hR.bind (hchild e (by simp [Expr.children])) fun out =>
        hR.bind (hR.dataType tested) fun target => ite (hR.pure _) (hR.pure _)
  | invoke f args t =>
      exact hR.bind (hchild f (by simp [Expr.children])) fun out =>
        hR.bind (hR.all fun x hx => hchild x (by simp [Expr.children, hx])) fun (args', kept) =>
          ite (hR.pure _) (hR.made _)
  | default t => exact hR.bind (hR.dataType t) fun target => hR.pure _

/-- Any node, once all nodes below are related. -/
theorem anyNode {e : Expr} (hself : ∀ c, R (self c) (self' c))
    (hpath : ∀ data,
      R (RecastM.onTable (w.config.dataPath e.chainBase.ty data e.chainNames o.maxDepth))
        (RecastM.onTable (w.config.dataPath e.chainBase.ty data e.chainNames o'.maxDepth)))
    (hunary : ∀ op x t, e = .unary op x t →
      R ((w.withOptions o).unary self op x t) ((w.withOptions o').unary self' op x t)) :
    R ((w.withOptions o).node self e) ((w.withOptions o').node self' e) := by
  cases e with
  | binary op l r c t => exact hR.spine hself
  | _ => exact hR.node rfl (fun c _ => hself c) (fun _ => hR.member (hself _) hpath) hunary

end Coupling

namespace LambdaRecaster

variable {m : LambdaRecaster} {o : RecastOptions}

/-! ## §4  Where recasting starts -/

theorem relateAll_withOptions : ∀ {pairs : List (Ty × Ty)},
    (m.withOptions o).relateAll pairs = m.relateAll pairs
  | [] => rfl
  | _ :: _ => bind_congr fun _ => relateAll_withOptions

theorem seedUnique_withOptions : ∀ {ps : List Parameter},
    (m.withOptions o).seedUnique ps = m.seedUnique ps
  | [] => rfl
  | p :: ps => by
      unfold seedUnique
      refine bind_congr fun s => ?_
      rw [seedUnique_withOptions]
      rfl

theorem seed_withOptions {params : List Parameter} {pair : Option TyPair} :
    (m.withOptions o).seed params pair = m.seed params pair := by
  cases pair with
  | none => exact seedUnique_withOptions
  | some p =>
      show (m.withOptions o).seedPair p params.length = m.seedPair p params.length
      simp only [seedPair, relateAll_withOptions]
      rfl

end LambdaRecaster

end Recast
