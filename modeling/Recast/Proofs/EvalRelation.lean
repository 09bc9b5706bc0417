import Recast.Proofs.Lockstep
import Recast.Proofs.Nodes
import Recast.Proofs.Run

/-! # Relations that evaluation respects

Evaluation of a node is composed of evaluations of the nodes below.  What is said of two
computations and holds again when they are composed alike need only be shown for
looking up a parameter, and then holds of two evaluations that follow to any depth.

- `EvalRelation` — a clause for each way to compose computations.
- `EvalRelation.evalNode` — a node, given how to evaluate the nodes below.
-/

namespace Recast

/-- The value of a parameter. -/
def EvalM.lookup (p : Parameter) : EvalM Value := do
  match (← get).get? p.id with
  | some v => pure v
  | none => throw (.unboundParameter p.name)

theorem EvalM.run_lookup (p : Parameter) (env : Env) :
    (lookup p).run env = ((env.get? p.id).elim (.error (.unboundParameter p.name)) .ok, env) := by
  unfold lookup
  rw [run_bind]
  show (match env.get? p.id with
    | some v => pure v
    | none => throw (.unboundParameter p.name) : EvalM Value).run env = _
  cases env.get? p.id <;> rfl

/-- A relation between computations, closed under what evaluation is composed of. -/
structure EvalRelation where
  rel : {α : Type} → EvalM α → EvalM α → Prop
  pure : ∀ {α : Type} (a : α), rel (pure a) (pure a)
  throw : ∀ {α : Type} (e : EvalError), rel (throw e : EvalM α) (throw e)
  /-- What follows is asked of the results only that the first computation can end with. -/
  bind_of_returns : ∀ {α β : Type} {x y : EvalM α} {f g : α → EvalM β}, rel x y →
    (∀ a env env', Returns x env a env' → rel (f a) (g a)) → rel (x >>= f) (y >>= g)
  inFrame : ∀ {α : Type} {x y : EvalM α} (frame : List (Nat × Value)), rel x y →
    rel (EvalM.inFrame frame x) (EvalM.inFrame frame y)
  lookup : ∀ p : Parameter, rel (EvalM.lookup p) (EvalM.lookup p)

namespace EvalRelation

variable (S : EvalRelation) {α β : Type}

theorem bind {x y : EvalM α} {f g : α → EvalM β} (h : S.rel x y) (hf : ∀ a, S.rel (f a) (g a)) :
    S.rel (x >>= f) (y >>= g) :=
  S.bind_of_returns h fun a _ _ _ => hf a

theorem map {x y : EvalM α} (f : α → β) (h : S.rel x y) : S.rel (f <$> x) (f <$> y) := by
  rw [map_eq_pure_bind, map_eq_pure_bind]
  exact S.bind h fun a => S.pure (f a)

theorem ofExcept (x : Except EvalError α) : S.rel (EvalM.ofExcept x) (EvalM.ofExcept x) := by
  cases x with
  | error e => exact S.throw e
  | ok a => exact S.pure a

theorem mapM {f g : β → EvalM α} (h : ∀ b, S.rel (f b) (g b)) :
    ∀ bs : List β, S.rel (bs.mapM f) (bs.mapM g)
  | [] => S.pure []
  | b :: bs => by
      rw [List.mapM_cons, List.mapM_cons]
      exact S.bind (h b) fun a => S.bind (mapM h bs) fun as => S.pure (a :: as)

/-- The relation on computations that end with what has a property. -/
def toLockstep : Lockstep where
  ends P x y := S.rel x y ∧ ∀ a env env', Returns x env a env' → P a
  ends_pure ha := ⟨S.pure _, fun _ _ _ h => (returns_pure.mp h).1 ▸ ha⟩
  ends_throw := ⟨S.throw _, fun _ _ _ h => absurd h returns_throw⟩
  ends_bind := by
    rintro α β P Q x y f g ⟨hxy, hx⟩ hf
    refine ⟨S.bind_of_returns hxy fun a env env' h => (hf a (hx a env env' h)).1, ?_⟩
    intro b env env'' h
    obtain ⟨a, env', ha, hb⟩ := returns_bind.mp h
    exact (hf a (hx a env env' ha)).2 b env' env'' hb

/-! ## Lambdas and methods -/

section Nodes

variable {self self' : Expr → EvalM Value} (hself : ∀ e, S.rel (self e) (self' e))
include hself

theorem applyLambda (lambda : Expr) (args : List Value) :
    S.rel (applyLambda self lambda args) (applyLambda self' lambda args) := by
  unfold Recast.applyLambda
  split
  · exact S.inFrame _ (hself _)
  · exact S.throw _

theorem applyValue (f : Value) (args : List Value) :
    S.rel (applyValue self f args) (applyValue self' f args) := by
  unfold Recast.applyValue
  split
  · exact S.applyLambda hself _ args
  · exact S.throw _

theorem sequenceOperator (name : String) (items : List Value) (arg? : Option Value) :
    S.rel (sequenceOperator self name items arg?) (sequenceOperator self' name items arg?) := by
  have happlies : ∀ f, S.toLockstep.Applies self self' (fun _ => True) (fun _ => True) f f :=
    fun f item _ => ⟨S.applyValue hself f [item], fun _ _ _ _ => trivial⟩
  have harg : Option.Rel (S.toLockstep.Applies self self' (fun _ => True) (fun _ => True))
      arg? arg? := by
    cases arg? with
    | none => exact .none
    | some f => exact .some (happlies f)
  exact (S.toLockstep.ends_sequenceOperator harg rfl (fun _ => rfl) fun _ _ => trivial).1

theorem methodValue (m : Method) (receiver? : Option Value) (args : List Value) :
    S.rel (methodValue self m receiver? args) (methodValue self' m receiver? args) := by
  unfold Recast.methodValue
  split
  · split
    · exact S.sequenceOperator hself _ _ _
    · exact S.throw _
    · exact S.throw _
    · exact S.throw _
  · split
    · exact S.throw _
    · split
      · exact S.ofExcept _
      · exact S.ofExcept _
      · exact S.ofExcept _
      · exact S.throw _
    · exact S.throw _

/-! ## Nodes -/

variable {r : Registry}

theorem unaryValue (op : UnaryOp) (operand : Expr) (ty : Ty) :
    S.rel (r.unaryValue self op operand ty) (r.unaryValue self' op operand ty) := by
  refine S.bind (hself operand) fun v => ?_
  cases op with
  | quote => exact S.pure v
  | convert | convertChecked => exact S.ofExcept _
  | typeAs => exact S.pure _
  | not => exact S.ofExcept _
  | negate => exact S.ofExcept _
  | arrayLength =>
      dsimp only
      split
      · exact S.pure _
      · exact S.throw _

theorem shortCircuit (op : BinaryOp) (absorbing : Bool) (left right : Expr) :
    S.rel (Registry.shortCircuit self op absorbing left right)
      (Registry.shortCircuit self' op absorbing left right) := by
  refine S.bind (hself left) fun a => ?_
  split
  · exact S.pure a
  · exact S.bind (hself right) fun _ => S.ofExcept _

theorem binaryValue (op : BinaryOp) (left right : Expr) (conversion : Option Expr) (ty : Ty) :
    S.rel (r.binaryValue self op left right conversion ty)
      (r.binaryValue self' op left right conversion ty) := by
  unfold Registry.binaryValue
  split
  · exact S.shortCircuit hself _ _ left right
  · exact S.shortCircuit hself _ _ left right
  · refine S.bind (hself left) fun a => ?_
    split
    · exact hself right
    · split
      · exact S.applyLambda hself _ _
      · exact S.pure a
  · exact S.bind (hself left) fun _ => S.bind (hself right) fun _ => S.ofExcept _

theorem initValues : ∀ (inits : List (String × Expr)) (done : List (String × Value)),
    S.rel (Registry.initValues self inits done) (Registry.initValues self' inits done)
  | [], done => S.pure done
  | (_, e) :: rest, _ => S.bind (hself e) fun _ => initValues rest _

theorem evalNode (e : Expr) : S.rel (r.evalNode self e) (r.evalNode self' e) := by
  have hargs := S.mapM hself
  cases e using Expr.shapes with
  | param p => exact S.lookup p
  | const v ty => exact S.pure v
  | member target m => exact S.bind (hself target) fun _ => S.ofExcept _
  | lambda params body ty => exact S.pure _
  | unary op operand ty => exact S.unaryValue hself op operand ty
  | binary op left right ty => exact S.binaryValue hself op left right none ty
  | coalesce op left right c ty => exact S.binaryValue hself op left right (some c) ty
  | cond test whenTrue whenFalse ty =>
      refine S.bind (hself test) fun v => ?_
      split
      · exact hself whenTrue
      · exact hself whenFalse
      · exact S.throw _
  | callStatic m args => exact S.bind (hargs args) fun _ => S.methodValue hself m none _
  | call target m args =>
      exact S.bind (hself target) fun v => S.bind (hargs args) fun _ =>
        S.methodValue hself m (some v) _
  | new ty inits => exact S.map _ (S.initValues hself inits [])
  | newArray ty items => exact S.map _ (hargs items)
  | typeIs operand tested ty => exact S.bind (hself operand) fun _ => S.pure _
  | invoke f args ty =>
      exact S.bind (hself f) fun v => S.bind (hargs args) fun _ => S.applyValue hself v _
  | default ty => exact S.pure _

end Nodes

end EvalRelation

end Recast
