import Recast.Expr.Basic

/-! # Replacement of parameters

Every parameter is replaced by one parameter for the whole of one recasting: by
itself if its type stays, otherwise by a new one of the same name.
-/

namespace Recast

/-- Replacements by the number of the parameter they replace, latest first. -/
structure Replacements where
  entries : List (Nat × Parameter) := []
  deriving Inhabited

namespace Replacements

variable (b : Replacements)

def get? (p : Parameter) : Option Parameter := b.entries.lookup p.id

def size : Nat := b.entries.length

def isEmpty : Bool := b.entries.isEmpty

/-- The replacement for a parameter whose data type is `data`.  A new one takes the number
`fresh`; the next free number comes back. -/
def replace (p : Parameter) (data : Ty) (fresh : Nat) : Parameter × Replacements × Nat :=
  match b.get? p with
  | some q => (q, b, fresh)
  | none =>
    if data = p.ty then (p, ⟨(p.id, p) :: b.entries⟩, fresh)
    else
      let q : Parameter := ⟨fresh, p.name, data⟩
      (q, ⟨(p.id, q) :: b.entries⟩, fresh + 1)

end Replacements

end Recast
