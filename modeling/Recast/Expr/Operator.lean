/-! # Operators

The operators of expressions and their names.
-/

namespace Recast

inductive UnaryOp where
  | convert | convertChecked | not | negate
  /-- Wraps a lambda as an expression value. -/
  | quote
  | typeAs | arrayLength
  deriving DecidableEq, Repr, Inhabited

namespace UnaryOp

def all : List UnaryOp := [.convert, .convertChecked, .not, .negate, .quote, .typeAs, .arrayLength]

def name : UnaryOp → String
  | convert => "Convert"
  | convertChecked => "ConvertChecked"
  | not => "Not"
  | negate => "Negate"
  | quote => "Quote"
  | typeAs => "TypeAs"
  | arrayLength => "ArrayLength"

def ofName? (s : String) : Option UnaryOp := all.find? (·.name == s)

/-- Operators whose result type is given rather than derived. -/
def isConversion : UnaryOp → Bool
  | convert | convertChecked | typeAs => true
  | _ => false

end UnaryOp

inductive BinaryOp where
  | add | subtract | multiply | divide | modulo
  | and | or | andAlso | orElse
  | equal | notEqual | lessThan | lessThanOrEqual | greaterThan | greaterThanOrEqual
  | coalesce | arrayIndex
  deriving DecidableEq, Repr, Inhabited

namespace BinaryOp

def all : List BinaryOp :=
  [.add, .subtract, .multiply, .divide, .modulo, .and, .or, .andAlso, .orElse, .equal, .notEqual,
    .lessThan, .lessThanOrEqual, .greaterThan, .greaterThanOrEqual, .coalesce, .arrayIndex]

def symbol : BinaryOp → String
  | add => "+"
  | subtract => "-"
  | multiply => "*"
  | divide => "/"
  | modulo => "%"
  | and => "And"
  | or => "Or"
  | andAlso => "AndAlso"
  | orElse => "OrElse"
  | equal => "=="
  | notEqual => "!="
  | lessThan => "<"
  | lessThanOrEqual => "<="
  | greaterThan => ">"
  | greaterThanOrEqual => ">="
  | coalesce => "??"
  | arrayIndex => "[]"

def ofSymbol? (s : String) : Option BinaryOp := all.find? (·.symbol == s)

def isComparison : BinaryOp → Bool
  | lessThan | lessThanOrEqual | greaterThan | greaterThanOrEqual => true
  | _ => false

def isArithmetic : BinaryOp → Bool
  | add | subtract | multiply | divide | modulo => true
  | _ => false

end BinaryOp

end Recast
