import Recast.Recaster.Basic

/-! # Recasting lambdas

A lambda over model types becomes a lambda over data types.

- `LambdaRecaster.recast` — without a pair of delegates each parameter takes
  the only data type configured for its model type; with one, the result has
  exactly the requested delegate type.  A quoted lambda stays quoted.
- `LambdaRecaster.recastAll` — several lambdas over one table.
-/

namespace Recast

structure LambdaRecaster where
  config : Configuration
  mapper : ValueMapping
  options : RecastOptions := {}

namespace LambdaRecaster

/-- Maps constants by the mappings of the configuration. -/
def ofConfig (c : Configuration) (options : RecastOptions) : LambdaRecaster :=
  { config := c, mapper := c.valueAs, options := options }

variable (m : LambdaRecaster)

def types : Registry := m.config.types

def relate (model data : Ty) : RecastM Unit := RecastM.onTable (m.config.relate model data)

/-! ## Correspondences to start from -/

def requireSignature (t : Ty) : Checked (List Ty × Ty) :=
  match m.types.signature? t with
  | some parts => .ok parts
  | none => .error (m.types.notDelegate t)

def relateAll : List (Ty × Ty) → RecastM Unit
  | [] => pure ()
  | (model, data) :: pairs => do
    m.relate model data
    relateAll pairs

/-- The parameters of two delegates correspond; return types are fitted afterwards. -/
def seedPair (p : TyPair) (arity : Nat) : RecastM Unit := do
  let (modelParams, _) ← RecastM.ofChecked (m.requireSignature p.source)
  let (dataParams, _) ← RecastM.ofChecked (m.requireSignature p.destination)
  let mismatch (expected actual : Nat) := MappingError.argumentCountMismatch
    (m.types.tyText p.source) (m.types.tyText p.destination) expected actual
  if modelParams.length ≠ dataParams.length then
    throw (mismatch modelParams.length dataParams.length)
  else if modelParams.length ≠ arity then throw (mismatch modelParams.length arity)
  else m.relateAll (modelParams.zip dataParams)

/-- A model type takes the only data type configured for it, if there is one. -/
def seedOnly (model : Ty) : RecastM Unit := do
  match ← RecastM.ofChecked (m.config.onlySource model) with
  | some data => m.relate model data
  | none => pure ()

/-- Every parameter type that has no correspondence yet takes the only one there can be. -/
def seedUnique : List Parameter → RecastM Unit
  | [] => pure ()
  | p :: ps => do
    let s ← get
    if s.table.contains p.ty then seedUnique ps
    else do
      m.seedOnly p.ty
      seedUnique ps

def seed (params : List Parameter) (pair : Option TyPair) : RecastM Unit :=
  match pair with
  | some p => m.seedPair p params.length
  | none => m.seedUnique params

/-! ## Results of a requested type -/

/-- The body as the return type requested, converted if need be. -/
def fitBody (lambda body : Expr) (destination ret : Ty) : Checked Expr :=
  if m.types.isAssignable body.ty ret then .ok body
  else if m.types.isConvertible body.ty ret then m.types.mkConvert body ret
  else .error (.delegateMismatch (m.types.tyText destination) (m.types.tyText lambda.ty))

/-- A recast lambda with exactly the requested delegate type. -/
def fitTo (lambda : Expr) (p : TyPair) : Checked Expr := do
  let destination := m.types.stripExpression p.destination
  let (_, ret) ← m.requireSignature destination
  match lambda with
  | .lambda params body _ => do
    let body ← m.fitBody lambda body destination ret
    m.types.mkLambdaTyped destination params body
  | _ => .error (.invalidArgument "rewrite did not produce a lambda")

/-! ## Recasting -/

def isQuoted : Expr → Bool
  | .unary .quote _ _ => true
  | _ => false

/-- The expression inside one quote. -/
def unquoted : Expr → Expr
  | .unary .quote e _ => e
  | e => e

/-- The outcome for an unquoted lambda, fitted to the delegates that were asked for. -/
def fitOutcome (e : Expr) (pair : Option TyPair) (o : Outcome) : Checked Outcome :=
  match pair with
  | some p => .made <$> m.fitTo (o.on (unquoted e)) p
  | none => .ok o

/-- Fits the outcome to what was asked for. -/
def finish (e : Expr) (pair : Option TyPair) (o : Outcome) : Checked Outcome := do
  let o ← m.fitOutcome e pair o
  if isQuoted e then .made <$> m.types.mkQuote (o.on (unquoted e)) else pure o

/-- Recasts one lambda over the table of the state.  Replacements of parameters do not
outlive it. -/
def recast (e : Expr) (pair : Option TyPair) (asInclude : Bool) : RecastM Outcome := do
  match e.lambdaParts? with
  | none =>
    throw (.invalidArgument ("expected a lambda expression, found " ++ m.types.tyText e.ty))
  | some (params, _, _) =>
    m.seed params pair
    modify fun s => { s with replacements := {} }
    let w : Recaster :=
      { config := m.config, mapper := m.mapper, options := m.options, asInclude := asInclude }
    let o ← w.recast (unquoted e)
    RecastM.ofChecked (m.finish e pair o)

/-- Recasts lambdas one after another over one table. -/
def recastAll (asInclude : Bool) : List Expr → RecastM (List Expr)
  | [] => pure []
  | e :: es => do
    let o ← m.recast e none asInclude
    let es' ← recastAll asInclude es
    pure (o.on e :: es')

end LambdaRecaster

end Recast
