import Recast.Recaster.Replacement
import Recast.Recaster.Options
import Recast.Recaster.Path
import Recast.Recaster.Chain
import Recast.Value.Mapped

/-! # Recasting expressions

An expression over model types is rebuilt over the data types that a table of
correspondences holds for them.

- `Outcome` — a node is kept as it is or made anew.  A node all of whose parts
  are kept, and whose types stand for themselves, is kept.
- `Recaster.node` — the rule for each kind of node, given how to recast the
  nodes below.
- `Recaster.spine` — a chain of binary operators nested on the left counts as
  one level, so only right operands go deeper.
- `Recaster.recastWithin` — recasting to a given depth.
-/

namespace Recast

/-- What recasting makes of a node. -/
inductive Outcome where
  | kept
  | made (e : Expr)

namespace Outcome

/-- The recast node, given the node. -/
def on (o : Outcome) (e : Expr) : Expr :=
  match o with
  | kept => e
  | made e' => e'

def isKept : Outcome → Bool
  | kept => true
  | made _ => false

end Outcome

structure RecastState where
  table : TypeTable := {}
  replacements : Replacements := {}
  /-- The number of the next new parameter. -/
  fresh : Nat := 0
  /-- The types built on the way.  The instances among them are closed when it is over. -/
  built : List Ty := []
  /-- The types that were looked up without an entry, each with what it stood for. -/
  resolved : List (Ty × Ty) := []
  deriving Inhabited

/-- Computations that may fail; the state keeps what was done before a failure. -/
abbrev RecastM := ExceptT MappingError (StateM RecastState)

namespace RecastM

def ofChecked {α : Type} (x : Checked α) : RecastM α :=
  match x with
  | .ok a => pure a
  | .error e => throw e

/-- A computation on the table. -/
def onTable {α : Type} (x : TableM α) : RecastM α :=
  fun s =>
    let (result, table) := x.run s.table
    (result, { s with table := table })

def noteBuilt (ts : List Ty) : RecastM Unit :=
  modify fun s => { s with built := s.built ++ ts }

/-- Types without an entry and what they stand for, which is built from now on. -/
def noteResolved (pairs : List (Ty × Ty)) : RecastM Unit :=
  modify fun s =>
    { s with built := s.built ++ pairs.map (·.2), resolved := s.resolved ++ pairs }

end RecastM

structure Recaster where
  config : Configuration
  mapper : ValueMapping
  options : RecastOptions
  /-- Member accesses are reduced to single chains. -/
  asInclude : Bool := false

namespace Recaster

variable (w : Recaster)

def types : Registry := w.config.types

def dataType (model : Ty) : RecastM Ty := do
  let s ← get
  RecastM.noteResolved (s.table.resolutions w.types model)
  pure (s.table.dataType w.types model)

def dataTypes : List Ty → RecastM (List Ty)
  | [] => pure []
  | t :: ts => do
    let t' ← w.dataType t
    let ts' ← dataTypes ts
    pure (t' :: ts')

def relate (model data : Ty) : RecastM Unit := RecastM.onTable (w.config.relate model data)

/-- The replacement of a parameter. -/
def replace (p : Parameter) : RecastM Parameter := do
  let data ← w.dataType p.ty
  let s ← get
  let (p', replacements, fresh) := s.replacements.replace p data s.fresh
  set { s with replacements := replacements, fresh := fresh }
  pure p'

def replaceAll : List Parameter → RecastM (List Parameter)
  | [] => pure []
  | p :: ps => do
    let p' ← w.replace p
    let ps' ← replaceAll ps
    pure (p' :: ps')

def constantAs (v : Value) (source target : Ty) : RecastM Expr :=
  match w.mapper v source target with
  | .ok v' => pure (.const v' target)
  | .error e => throw (.value e)

/-! ## Member chains -/

/-- The steps are exactly the members that were named. -/
def retraces (steps : List DataStep) (path : List String) : Bool :=
  match steps with
  | [] => path.isEmpty
  | [.members ms] => ms.map (·.name) == path
  | _ => false

def walk (e : Expr) : List DataStep → Checked Expr
  | [] => .ok e
  | .members ms :: steps => walk (e.select ms) steps
  | .custom lambda :: steps => do
    let reached ← w.types.betaReduce lambda e
    walk reached steps

/-- A custom step may leave a scalar that converts to the scalar of the model. -/
def convertsBack (rebuilt model : Ty) : Bool :=
  rebuilt != model && w.types.isScalar model && w.types.isScalar rebuilt &&
    w.types.isConvertible rebuilt model

/-- A walked chain converted back to the scalar of the model; else its type is registered. -/
def settle (model : Ty) (custom : Bool) (walked : Expr) : RecastM Expr :=
  if custom && w.convertsBack walked.ty model then
    RecastM.ofChecked (w.types.mkConvert walked model)
  else do
    w.relate model walked.ty
    pure walked

section Nodes

variable (self : Expr → RecastM Outcome)

def member (e : Expr) : RecastM Outcome := do
  let base := e.chainBase
  let names := e.chainNames
  let o ← self base
  let newBase := o.on base
  let steps ← RecastM.onTable
    (w.config.dataPath base.ty newBase.ty names w.options.maxDepth)
  let custom := steps.any (·.isCustom)
  if !custom && o.isKept && retraces steps names then pure .kept
  else
    let walked ← RecastM.ofChecked (w.walk newBase steps)
    let rebuilt ← w.settle e.ty custom walked
    if w.asInclude then .made <$> RecastM.ofChecked (w.types.singleChain rebuilt newBase)
    else pure (.made rebuilt)

/-! ## Nodes of fixed shape -/

/-- Recast expressions, and whether all of them are kept. -/
def all : List Expr → RecastM (List Expr × Bool)
  | [] => pure ([], true)
  | e :: es => do
    let o ← self e
    let (es', kept) ← all es
    pure (o.on e :: es', o.isKept && kept)

def optional : Option Expr → RecastM (Option Expr × Bool)
  | none => pure (none, true)
  | some e => do
    let o ← self e
    pure (some (o.on e), o.isKept)

def param (p : Parameter) : RecastM Outcome := do
  let p' ← w.replace p
  pure (if p' = p then .kept else .made (.param p'))

def const (v : Value) (ty : Ty) : RecastM Outcome := do
  let target ← w.dataType ty
  if target = ty then pure .kept else .made <$> w.constantAs v ty target

def lambda (params : List Parameter) (body : Expr) : RecastM Outcome := do
  let params' ← w.replaceAll params
  let o ← self body
  if o.isKept && params' == params then pure .kept
  else pure (.made (Registry.mkLambda params' (o.on body)))

/-- A conversion of a constant takes the constant to the data type at once. -/
def convertedConstant? (op : UnaryOp) (operand : Expr) : Option (Value × Ty) :=
  match op, operand with
  | .convert, .const v t => some (v, t)
  | .convertChecked, .const v t => some (v, t)
  | _, _ => none

/-- The type of a unary node over a recast operand: only a conversion has one of its own. -/
def conversionTarget (op : UnaryOp) (ty : Ty) : RecastM Ty :=
  if op.isConversion then w.dataType ty else pure ty

/-- A unary node over a recast operand. -/
def rebuildUnary (op : UnaryOp) (operand : Expr) (ty target : Ty) : RecastM Expr :=
  if w.options.ignoreValidations then
    if op.isConversion then pure (.unary op operand target)
    else (.unary op operand ·) <$> w.dataType ty
  else if op.isConversion then RecastM.ofChecked (w.types.mkConversion op operand target)
  else RecastM.ofChecked (w.types.mkUnary op operand)

def operand (op : UnaryOp) (operand : Expr) (ty : Ty) : RecastM Outcome := do
  let o ← self operand
  if op = .quote then
    if o.isKept then pure .kept else .made <$> RecastM.ofChecked (w.types.mkQuote (o.on operand))
  else
    let target ← w.conversionTarget op ty
    if o.isKept && target == ty then pure .kept
    else .made <$> w.rebuildUnary op (o.on operand) ty target

def unary (op : UnaryOp) (operand : Expr) (ty : Ty) : RecastM Outcome := do
  match convertedConstant? op operand with
  | some (v, t) =>
    let target ← w.dataType ty
    if target ≠ ty then .made <$> w.constantAs v t target else w.operand self op operand ty
  | none => w.operand self op operand ty

/-! ## Binary operators -/

/-- The outcomes for two operands.  A constant comes after an operand that is none, so that
the types of the other side are known when it is mapped. -/
def operands (left right : Expr) (leftDone : Option Outcome) : RecastM (Outcome × Outcome) := do
  match leftDone with
  | some l =>
    let r ← self right
    pure (l, r)
  | none =>
    if left.isConstant && !right.isConstant then
      let r ← self right
      let l ← self left
      pure (l, r)
    else
      let l ← self left
      let r ← self right
      pure (l, r)

/-- One binary node; `leftDone` is the outcome of the left operand if it is known already. -/
def binaryNode (op : BinaryOp) (left right : Expr) (conversion : Option Expr)
    (leftDone : Option Outcome) : RecastM Outcome := do
  let (l, r) ← operands self left right leftDone
  let (conversion', conversionKept) ← optional self conversion
  if l.isKept && r.isKept && conversionKept then pure .kept
  else .made <$> RecastM.ofChecked (w.types.mkBinary op (l.on left) (r.on right) conversion')

/-- A chain of binary nodes nested on the left, from the innermost one outward. -/
def spine : Expr → RecastM Outcome
  | .binary op left right conversion _ =>
    if left.isBinary then do
      let l ← spine left
      w.binaryNode self op left right conversion (some l)
    else w.binaryNode self op left right conversion none
  | e => self e

/-! ## Calls -/

/-- Recast arguments, whose types are registered as they come. -/
def arguments : List Expr → RecastM (List Expr × Bool)
  | [] => pure ([], true)
  | e :: es => do
    let o ← self e
    w.relate e.ty (o.on e).ty
    let (es', kept) ← arguments es
    pure (o.on e :: es', o.isKept && kept)

/-- Every argument is assignable to its parameter, or a value that converts to it. -/
def fits (m : Method) (argTypes : List Ty) : Bool :=
  (m.params.zip argTypes).all fun (p, a) =>
    w.types.isAssignable a p || (w.types.isValueType a && w.types.isConvertible a p)

/-- A generic method closed again: over the resolved type arguments if the recast
arguments fit, else over inferred ones. -/
def reclose (m : Method) (args : List Expr) : RecastM Method := do
  if !m.isGeneric then pure m
  else
    let argTypes := args.map (·.ty)
    let typeArgs ← w.dataTypes m.typeArgs
    let resolved := w.types.closeMethod? m.definition typeArgs
    RecastM.noteBuilt (resolved.toList.flatMap w.types.builtByMethod)
    match resolved.filter (w.fits · argTypes) with
    | some m' => pure m'
    | none =>
      match w.types.closeByArguments? m.definition argTypes with
      | some m' =>
        RecastM.noteBuilt (w.types.builtByMethod m')
        pure m'
      | none => throw (.methodInstantiation (w.types.methodText m))

/-- A value converted to the type of its parameter where that is possible. -/
def fitArgument (arg : Expr) (p : Ty) : Checked Expr :=
  if arg.ty ≠ p ∧ w.types.isValueType arg.ty ∧ w.types.isConvertible arg.ty p then
    w.types.mkConvert arg p
  else .ok arg

def fitArguments : List Expr → List Ty → Checked (List Expr)
  | arg :: args, p :: params => do
    let arg' ← w.fitArgument arg p
    let args' ← fitArguments args params
    pure (arg' :: args')
  | _, _ => .ok []

def call (target : Option Expr) (m : Method) (args : List Expr) : RecastM Outcome := do
  let (target', targetKept) ← optional self target
  let (args', argsKept) ← w.arguments self args
  if targetKept && argsKept then pure .kept
  else
    let m' ← w.reclose m args'
    let fitted ← RecastM.ofChecked (w.fitArguments args' m'.params)
    .made <$> RecastM.ofChecked (w.types.mkCall target' m' fitted)

/-! ## Construction -/

/-- The data member that a model member is read from, if it is a single one. -/
def dataName (map : Option Mapping) (name : String) : String :=
  match (map.bind (w.config.memberRule? · name)).filter (·.custom.isNone) with
  | some { source := [m], .. } => m.name
  | _ => name

def construct (ty : Ty) (inits : List (String × Expr)) : RecastM Outcome := do
  let names := inits.map (·.1)
  let (values, kept) ← all self (inits.map (·.2))
  if w.types.isAnonymous ty then
    pure (if kept then .kept else .made (Registry.mkAnonymous (names.zip values)))
  else
    let target ← w.dataType ty
    if target = ty then
      if kept then pure .kept
      else .made <$> RecastM.ofChecked (w.types.mkNew ty (names.zip values))
    else
      let map := w.config.mapping? target ty
      .made <$> RecastM.ofChecked
        (w.types.mkNew target ((names.map (w.dataName map)).zip values))

/-! ## All nodes -/

def node (e : Expr) : RecastM Outcome :=
  match e with
  | .param p => w.param p
  | .const v ty => w.const v ty
  | .member _ _ => w.member self e
  | .lambda params body _ => w.lambda self params body
  | .unary op operand ty => w.unary self op operand ty
  | .binary _ _ _ _ _ => w.spine self e
  | .cond test whenTrue whenFalse _ => do
    let c ← self test
    let a ← self whenTrue
    let b ← self whenFalse
    if c.isKept && a.isKept && b.isKept then pure .kept
    else
      .made <$> RecastM.ofChecked
        (w.types.mkCond (c.on test) (a.on whenTrue) (b.on whenFalse))
  | .call target m args => w.call self target m args
  | .new ty inits => w.construct self ty inits
  | .newArray ty items => do
    let (items', kept) ← all self items
    let element := (w.types.element? ty).getD ty
    let target ← w.dataType element
    if target = element ∧ kept then pure .kept
    else .made <$> RecastM.ofChecked (w.types.mkNewArray target items')
  | .typeIs operand tested _ => do
    let o ← self operand
    let target ← w.dataType tested
    if target = tested ∧ o.isKept then pure .kept
    else pure (.made (Registry.mkTypeIs (o.on operand) target))
  | .invoke f args _ => do
    let o ← self f
    let (args', kept) ← all self args
    if o.isKept && kept then pure .kept
    else .made <$> RecastM.ofChecked (w.types.mkInvoke (o.on f) args')
  | .default ty => do
    let target ← w.dataType ty
    pure (if target = ty then .kept else .made (.default target))

end Nodes

/-- Recasting with the given number of levels left. -/
def recastWithin : Nat → Expr → RecastM Outcome
  | 0 => fun _ => throw (.recursionLimit w.options.maxDepth)
  | n + 1 => w.node (recastWithin n)

/-- Recasting of a whole expression. -/
def recast (e : Expr) : RecastM Outcome := w.recastWithin w.options.maxDepth e

end Recaster

end Recast
