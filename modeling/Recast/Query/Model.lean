import Recast.Query.Rows
import Recast.Recaster.Lambda

/-! # Queries over a model

A query takes lambdas over a model type, recasts them over the data type of its
rows and applies them there.  All lambdas of a query share one table.
-/

namespace Recast

structure ModelQuery where
  model : Ty
  source : Rows
  table : TypeTable := {}
  deriving Inhabited

namespace ModelQuery

variable (m : LambdaRecaster)

/-- A query whose table starts from the model type and the type of the rows. -/
def start (model : Ty) (source : Rows) : Checked ModelQuery :=
  match (m.config.relate model source.element).run {} with
  | (.ok _, table) => .ok { model := model, source := source, table := table }
  | (.error e, _) => .error e

/-- What a query operator leads to: the failure or result, the query, and the state that its
lambda was recast to. -/
structure Step (α : Type) where
  result : Checked α
  query : ModelQuery
  state : RecastState

/-- A lambda over the model recasted over the rows, with its model and data result types. -/
def recast (q : ModelQuery) (lambda : Expr) (fresh : Nat) : Step (Expr × Ty × Ty) :=
  let start : RecastState := { table := q.table, fresh := fresh }
  match lambda.lambdaParts? with
  | none => ⟨.error (.invalidArgument "query operators take lambda expressions"), q, start⟩
  | some (_, body, _) =>
    let dataRet := q.table.dataType m.types body.ty
    let pair : TyPair := ⟨.func [q.model] body.ty, .func [q.source.element] dataRet⟩
    let (result, s) := (m.recast lambda (some pair) false).run
      { start with built := q.table.built m.types body.ty }
    ⟨result.map fun o => (o.on lambda, body.ty, dataRet), { q with table := s.table }, s⟩

/-- Recasts a lambda and changes the rows by it. -/
def change (q : ModelQuery) (lambda : Expr) (fresh : Nat)
    (f : Rows → Expr → Option EvalError × Rows) : Step Unit :=
  let step := q.recast m lambda fresh
  match step.result with
  | .error e => ⟨.error e, step.query, step.state⟩
  | .ok (e, _, _) =>
    let (failure, rows) := f step.query.source e
    let result := match failure with
      | some e => .error (.eval e)
      | none => .ok ()
    ⟨result, { step.query with source := rows }, step.state⟩

def filter (q : ModelQuery) (predicate : Expr) (fresh : Nat) : Step Unit :=
  q.change m predicate fresh fun rows e => rows.filter m.types e

def orderBy (q : ModelQuery) (key : Expr) (descending : Bool) (fresh : Nat) : Step Unit :=
  q.change m key fresh fun rows e => rows.orderBy m.types e descending

def take (q : ModelQuery) (n : Nat) : ModelQuery := { q with source := q.source.take n }

def skip (q : ModelQuery) (n : Nat) : ModelQuery := { q with source := q.source.skip n }

/-- Values mapped one by one. -/
def valuesAs (source target : Ty) : List Value → Checked (List Value)
  | [] => .ok []
  | v :: vs =>
    match m.mapper v source target with
    | .error e => .error (.value e)
    | .ok w => (valuesAs source target vs).map (w :: ·)

/-- The selected values, mapped back to the model type of the selector. -/
def select (q : ModelQuery) (selector : Expr) (fresh : Nat) : Step (List Value) :=
  let step := q.recast m selector fresh
  let result := match step.result with
    | .error e => .error e
    | .ok (e, modelRet, dataRet) =>
      match step.query.source.valuesBy m.types e with
      | .error e => .error (.eval e)
      | .ok values => valuesAs m dataRet modelRet values
  ⟨result, step.query, step.state⟩

/-- The rows as values of the model type. -/
def models (q : ModelQuery) : Checked (List Value) :=
  valuesAs m q.source.element q.model q.source.rows

end ModelQuery

end Recast
