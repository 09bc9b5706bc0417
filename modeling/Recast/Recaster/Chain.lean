import Recast.Expr.Checked
import Recast.Sorted

/-! # Custom lambdas and single chains

- `Registry.betaReduce` — the body of a custom lambda with an expression in the
  place of its parameter.
- `Registry.singleChain` — a recast include reduced to the longest chain of
  members from a root.  Every chain from the root that occurs has to be a part
  of it, counted from the root.
-/

namespace Recast

/-- The different lists in order of first occurrence. -/
def distinct (xs : List (List String)) : List (List String) :=
  xs.foldl (fun seen x => if seen.contains x then seen else seen ++ [x]) []

namespace Registry

variable (r : Registry)

/-- The argument as it is, or converted to the type of the parameter. -/
def fitArgument (argument : Expr) (t : Ty) : Checked Expr :=
  if r.isAssignable argument.ty t then .ok argument else r.mkConvert argument t

def betaReduce (custom argument : Expr) : Checked Expr :=
  match custom.lambdaParts? with
  | none => .error (.invalidConfiguration "custom expressions must be lambdas")
  | some ([p], body, _) => do
    let fitted ← r.fitArgument argument p.ty
    pure (.substitute p.id fitted body)
  | some (params, _, _) =>
    .error (.invalidConfiguration
      ("custom expressions take one parameter, found " ++ toString params.length))

/-- The member chains of `e` that start at `root`, in the order they are met. -/
def chainsFrom (root e : Expr) : List (List String) :=
  distinct ((e.nodes.filter fun n => n.isMember && n.chainBase == root).map Expr.chainNames)

def chainText (root : Expr) (chain : List String) : String :=
  r.tyText root.ty ++ "." ++ ".".intercalate chain

/-- The last of the chains, if each continues the one before. -/
def longestChain (root : Expr) (longest : List String) :
    List (List String) → Checked (List String)
  | [] => .ok longest
  | next :: chains =>
    if longest.isPrefixOf next then longestChain root next chains
    else .error (.includeTooComplex (r.chainText root longest) (r.chainText root next))

def singleChain (e root : Expr) : Checked Expr :=
  match sortBy (fun a b => a.length < b.length) (chainsFrom root e) with
  | [] => .ok e
  | shortest :: chains => do
    let chain ← r.longestChain root shortest chains
    r.mkPath root chain

end Registry

end Recast
