import Recast.Ty.Members

/-! # Instances of generic records

An instance is made once, when its generic record is first closed over its
arguments: the base and the members are read off the declaration and the
arguments put in.  From then on they are its own, and redefining a type that the
declaration mentions changes only instances that are closed later.

- `reach` — a type and the parts that putting in arguments goes into.
- `builtBy` — the types that putting in arguments builds.
- `close` — a registry that keeps the instances among given types, with those
  that their bases and members are built from.
-/

namespace Recast

namespace Registry

section Parts

variable (r : Registry)

def partsWithin : Nat → Ty → List Ty
  | 0, t => [t]
  | n + 1, t => t :: (r.tyArgs t).flatMap (partsWithin n)

/-- A type and its parts.  What a redefined type was built from is no part of it. -/
def reach (t : Ty) : List Ty := r.partsWithin t.size t

/-- The types that are built when arguments are put into `t`. -/
def builtBy (args : List Ty) (t : Ty) : List Ty := (r.reach t).map (r.substitute args)

/-- The types that are built when an instance is made. -/
def builtFor (generic : Nat) (args : List Ty) : List Ty :=
  match r.declarations[generic]? with
  | some (.generic _ _ base members) =>
    (base.toList ++ members.map (·.ty)).flatMap (r.builtBy args)
  | _ => []

/-- A bound on how many instances are made one inside the other.  Each belongs to an earlier
generic record than the one around it, or to the same one; then its arguments are put together
from those around it and from types that the declaration mentions. -/
def closingDepth : Nat :=
  total (r.declarations.map fun
    | .generic _ params base members =>
      Nat.pow (params + total ((base.toList ++ members.map (·.ty)).map Ty.size) + 1)
        (params * (params + 2))
    | _ => 0) + 1

end Parts

/-- Keeps an instance and what it is made of, as it reads now; one that is kept already stays. -/
def closeWithin : Nat → Registry → Ty → Registry
  | 0, r, _ => r
  | n + 1, r, .inst generic args =>
    match r.instance? (.inst generic args), r.unfolded? generic args with
    | none, some d =>
      (r.builtFor generic args).foldl (closeWithin n)
        { r with instances := r.instances ++ [(.inst generic args, d)] }
    | _, _ => r
  | _ + 1, r, _ => r

/-- Keeps every instance that the given types are or are built from. -/
def close (r : Registry) (ts : List Ty) : Registry :=
  (ts.flatMap r.reach).foldl (closeWithin r.closingDepth) r

end Registry

end Recast
