import Recast.Eval.Basic

/-! # Rows in memory

A collection of rows of one type, queried by evaluating lambdas on each row.  An
operator that fails on some row leaves no rows.
-/

namespace Recast

structure Rows where
  element : Ty
  rows : List Value
  deriving Inhabited

namespace Rows

variable (r : Registry)

/-- The rows for which the predicate is true. -/
def keepTrue (predicate : Expr) : List Value → Except EvalError (List Value)
  | [] => .ok []
  | row :: rows => do
    let v ← r.apply predicate [row]
    let kept ← keepTrue predicate rows
    pure (if v.asBool? = some true then row :: kept else kept)

/-- Every row with a lambda applied to it. -/
def applyEach (lambda : Expr) : List Value → Except EvalError (List Value)
  | [] => .ok []
  | row :: rows => do
    let v ← r.apply lambda [row]
    let vs ← applyEach lambda rows
    pure (v :: vs)

/-- The collection with other rows, or with none and the failure. -/
def withRows (s : Rows) (rows : Except EvalError (List Value)) : Option EvalError × Rows :=
  match rows with
  | .ok rows => (none, { s with rows := rows })
  | .error e => (some e, { s with rows := [] })

def filter (s : Rows) (predicate : Expr) : Option EvalError × Rows :=
  s.withRows (keepTrue r predicate s.rows)

/-- The rows by keys, which are computed once; rows with equal keys keep their order. -/
def sorted (descending : Bool) (keyed : List (Value × Value)) : List Value :=
  let below (a b : Value × Value) := a.1.order? b.1 == some (if descending then .gt else .lt)
  (sortBy below keyed).map (·.2)

def orderBy (s : Rows) (key : Expr) (descending : Bool) : Option EvalError × Rows :=
  s.withRows ((applyEach r key s.rows).map fun keys => sorted descending (keys.zip s.rows))

def take (s : Rows) (n : Nat) : Rows := { s with rows := s.rows.take n }

def skip (s : Rows) (n : Nat) : Rows := { s with rows := s.rows.drop n }

def valuesBy (s : Rows) (selector : Expr) : Except EvalError (List Value) :=
  applyEach r selector s.rows

end Rows

end Recast
