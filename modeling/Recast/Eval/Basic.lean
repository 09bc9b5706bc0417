import Recast.Eval.Convert
import Recast.Eval.Operator
import Recast.Scope
import Recast.Sorted

/-! # Evaluation

Expressions are evaluated over an environment that binds parameters to values.
Applying a lambda opens a frame with its arguments, evaluates the body and
closes the frame again, whether or not the body succeeded.  A lambda value
carries no bindings, so a free parameter of its body is looked up where the
lambda is applied.

`Registry.eval` follows nested evaluations to a given depth and reports
`tooDeep` beyond; `Registry.evaluate` and `Registry.apply` use `evalDepth`.
-/

namespace Recast

/-- Parameters are bound by identity. -/
abbrev Env := Scope Nat Value

/-- Computations that may fail and use the environment. -/
abbrev EvalM := ExceptT EvalError (StateM Env)

namespace EvalM

/-- Runs a computation in a new frame, which is closed whatever the outcome. -/
def inFrame {α : Type} (frame : List (Nat × Value)) (act : EvalM α) : EvalM α :=
  fun env =>
    let (result, after) := act.run (env.push frame)
    (result, after.pop)

def ofExcept {α : Type} (e : Except EvalError α) : EvalM α :=
  match e with
  | .ok a => pure a
  | .error e => throw e

end EvalM

/-! ## Applying lambdas -/

section Apply

variable (self : Expr → EvalM Value)

/-- Evaluates the body with the parameters bound to the arguments.  A parameter without
an argument stays unbound. -/
def applyLambda (lambda : Expr) (args : List Value) : EvalM Value :=
  match lambda.lambdaParts? with
  | some (params, body, _) => EvalM.inFrame ((params.map (·.id)).zip args) (self body)
  | none => throw (.typeMismatch "lambda" "expression")

def applyValue (f : Value) (args : List Value) : EvalM Value :=
  match f with
  | .lambda e => applyLambda self e args
  | v => throw (.typeMismatch "lambda" v.text)

/-- A predicate holds of an item; null counts as false. -/
def holds (predicate item : Value) : EvalM Bool := do
  match ← applyValue self predicate [item] with
  | .bool b => pure b
  | .null => pure false
  | v => throw (.typeMismatch "Boolean" v.text)

def anyHolds (predicate : Value) : List Value → EvalM Bool
  | [] => pure false
  | item :: items => do
    if ← holds self predicate item then pure true else anyHolds predicate items

def allHold (predicate : Value) : List Value → EvalM Bool
  | [] => pure true
  | item :: items => do
    if ← holds self predicate item then allHold predicate items else pure false

def keepHolding (predicate : Value) : List Value → EvalM (List Value)
  | [] => pure []
  | item :: items => do
    let keep ← holds self predicate item
    let rest ← keepHolding predicate items
    pure (if keep then item :: rest else rest)

/-- All items, or those of which the predicate holds. -/
def keepIf (predicate? : Option Value) (items : List Value) : EvalM (List Value) :=
  match predicate? with
  | some p => keepHolding self p items
  | none => pure items

def selected (selector : Value) : List Value → EvalM (List Value)
  | [] => pure []
  | item :: items => do
    let v ← applyValue self selector [item]
    let vs ← selected selector items
    pure (v :: vs)

/-! ## Sequence operators -/

/-- Sums integers as it goes, so that the first partial sum out of range is the error. -/
def sumFrom (selector : Value) (total : Int) : List Value → EvalM Int
  | [] => pure total
  | item :: items => do
    let v ← applyValue self selector [item]
    let total := total + v.asInt64?.getD 0
    if inInt64 total then sumFrom selector total items else throw (.arithmetic "Sum")

/-- The best value so far gives way only to a value that compares as `wanted` to it. -/
def extremeFrom (selector : Value) (wanted : Ordering) (best : Option Value) :
    List Value → EvalM (Option Value)
  | [] => pure best
  | item :: items => do
    let v ← applyValue self selector [item]
    let best := match best with
      | some b => if v.order? b == some wanted then v else b
      | none => v
    extremeFrom selector wanted (some best) items

/-- The first key is below the second; keys without an order are not below one another. -/
def keyBelow (a b : Value × Value) : Bool := a.1.order? b.1 == some .lt

/-- Items by ascending keys. -/
def sortAscending (keyed : List (Value × Value)) : List Value := (sortBy keyBelow keyed).map (·.2)

/-- Items by descending keys. -/
def sortDescending (keyed : List (Value × Value)) : List Value :=
  (sortBy (fun a b => keyBelow b a) keyed).map (·.2)

/-- Operators that need an argument after the sequence fail without one. -/
def withArgument (arg? : Option Value) (use : Value → EvalM Value) : EvalM Value :=
  match arg? with
  | some v => use v
  | none => throw .emptySequence

/-- The arguments of a sequence operator after the sequence. -/
def sequenceOperator (name : String) (items : List Value) (arg? : Option Value) : EvalM Value :=
  let withArg := withArgument arg?
  let count := ((arg?.bind Value.asInt64?).getD 0).toNat
  match name with
  | "Any" =>
    match arg? with
    | some p => Value.bool <$> anyHolds self p items
    | none => pure (.bool (!items.isEmpty))
  | "All" => withArg fun p => Value.bool <$> allHold self p items
  | "Count" => (fun kept => Value.int kept.length) <$> keepIf self arg? items
  | "Where" => Value.list <$> keepIf self arg? items
  | "Select" => withArg fun f => Value.list <$> selected self f items
  | "First" => do
    match ← keepIf self arg? items with
    | v :: _ => pure v
    | [] => throw .emptySequence
  | "FirstOrDefault" => (fun kept => kept.headD .null) <$> keepIf self arg? items
  | "Contains" => pure (.bool (arg?.any fun v => items.any (·.sameValue v)))
  | "OrderBy" =>
    withArg fun f => (fun keys => .list (sortAscending (keys.zip items))) <$> selected self f items
  | "OrderByDescending" =>
    withArg fun f => (fun keys => .list (sortDescending (keys.zip items))) <$> selected self f items
  | "Sum" => withArg fun f => Value.int <$> sumFrom self f 0 items
  | "Max" => withArg fun f => do
    match ← extremeFrom self f .gt none items with
    | some v => pure v
    | none => throw .emptySequence
  | "Min" => withArg fun f => do
    match ← extremeFrom self f .lt none items with
    | some v => pure v
    | none => throw .emptySequence
  | "Take" => pure (.list (items.take count))
  | "Skip" => pure (.list (items.drop count))
  | _ => throw (.unsupportedMethod name)

/-- A method applied to evaluated operands. -/
def methodValue (m : Method) (receiver? : Option Value) (args : List Value) : EvalM Value :=
  if m.declaring == "Enumerable" || m.declaring == "Queryable" then
    match args with
    | .list items :: rest => sequenceOperator self m.name items rest.head?
    | .null :: _ => throw (.nullReference m.name)
    | v :: _ => throw (.typeMismatch "sequence" v.text)
    | [] => throw (.typeMismatch "sequence" "")
  else match receiver? with
    | some .null => throw (.nullReference m.qualifiedName)
    | some v =>
      match m.declaring, v with
      | "String", .str s => EvalM.ofExcept (textMethod m s args)
      | "String", v => EvalM.ofExcept (objectMethod m v args)
      | "Object", v => EvalM.ofExcept (objectMethod m v args)
      | _, _ => throw (.unsupportedMethod m.qualifiedName)
    | none => throw (.unsupportedMethod m.qualifiedName)

end Apply

/-! ## Nodes -/

namespace Registry

variable (r : Registry)

/-- The value is an instance of the tested type, going by the record's own type for
records and by the static type otherwise. -/
def isInstance (v : Value) (static tested : Ty) : Bool :=
  match v with
  | .null => false
  | .record t _ => r.descendsFrom t (r.stripNullable tested) || r.isAssignable t tested
  | _ => r.isAssignable (r.stripNullable static) (r.stripNullable tested)

section Nodes

variable (self : Expr → EvalM Value)

def unaryValue (op : UnaryOp) (operand : Expr) (ty : Ty) : EvalM Value := do
  let v ← self operand
  match op with
  | .quote => pure v
  | .convert | .convertChecked => EvalM.ofExcept (r.castValue v operand.ty ty)
  | .typeAs => pure (if r.isInstance v operand.ty ty then v else .null)
  | .not => EvalM.ofExcept (negation v)
  | .negate => EvalM.ofExcept (negated v)
  | .arrayLength =>
    match v.asList? with
    | some items => pure (.int items.length)
    | none => throw (badOperand .arrayLength v)

/-- The left operand decides alone if it is the absorbing Boolean. -/
def shortCircuit (op : BinaryOp) (absorbing : Bool) (left right : Expr) : EvalM Value := do
  let a ← self left
  if a == .bool absorbing then pure a
  else
    let b ← self right
    EvalM.ofExcept (connective op a b)

def binaryValue (op : BinaryOp) (left right : Expr) (conversion : Option Expr) (ty : Ty) :
    EvalM Value :=
  match op with
  | .andAlso => shortCircuit self op false left right
  | .orElse => shortCircuit self op true left right
  | .coalesce => do
    let a ← self left
    if a.isNull then self right
    else match conversion with
      | some c => applyLambda self c [a]
      | none => pure a
  | _ => do
    let a ← self left
    let b ← self right
    EvalM.ofExcept (operatorValue (r.isIntegral ty) op a b)

def initValues (inits : List (String × Expr)) (done : List (String × Value)) :
    EvalM (List (String × Value)) :=
  match inits with
  | [] => pure done
  | (name, e) :: rest => do
    let v ← self e
    initValues rest (Value.putField done name v)

/-- The value of a node, given how to evaluate the nodes below. -/
def evalNode (e : Expr) : EvalM Value :=
  match e with
  | .param p => do
    match (← get).get? p.id with
    | some v => pure v
    | none => throw (.unboundParameter p.name)
  | .const v _ => pure v
  | .member target m => do
    let v ← self target
    EvalM.ofExcept (valueMember (r.underlying? target.ty).isSome v m.name)
  | .lambda _ _ _ => pure (.lambda e)
  | .unary op operand ty => r.unaryValue self op operand ty
  | .binary op left right conversion ty => r.binaryValue self op left right conversion ty
  | .cond test whenTrue whenFalse _ => do
    match ← self test with
    | .bool true => self whenTrue
    | .bool false => self whenFalse
    | v => throw (.typeMismatch "Boolean" v.text)
  | .call none m args => do
    let values ← args.mapM self
    methodValue self m none values
  | .call (some target) m args => do
    let receiver ← self target
    let values ← args.mapM self
    methodValue self m (some receiver) values
  | .new ty inits => .record ty <$> initValues self inits []
  | .newArray _ items => .list <$> items.mapM self
  | .typeIs operand tested _ => do
    let v ← self operand
    pure (.bool (r.isInstance v operand.ty tested))
  | .invoke f args _ => do
    let function ← self f
    let values ← args.mapM self
    applyValue self function values
  | .default ty => pure (r.defaultOf ty)

end Nodes

/-- Evaluation of an expression, following nested evaluations to the given depth. -/
def eval : Nat → Expr → EvalM Value
  | 0 => fun _ => throw .tooDeep
  | n + 1 => r.evalNode (eval n)

/-- How deep evaluation follows. -/
def evalDepth : Nat := 1000000

/-- The value of a closed expression. -/
def evaluate (e : Expr) : Except EvalError Value := ((r.eval evalDepth e).run.run .empty).1

/-- The value of a lambda applied to arguments. -/
def apply (lambda : Expr) (args : List Value) : Except EvalError Value :=
  ((applyLambda (r.eval evalDepth) lambda args).run.run .empty).1

end Registry

end Recast
