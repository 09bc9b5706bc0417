/-! # Options of recasting -/

namespace Recast

structure RecastOptions where
  /-- Unary nodes are rebuilt as they are, without checking their operand. -/
  ignoreValidations : Bool := false
  /-- How deep expressions and paths are followed. -/
  maxDepth : Nat := 256
  deriving DecidableEq, Repr, Inhabited

end Recast
