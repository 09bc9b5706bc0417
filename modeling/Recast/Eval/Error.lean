/-! # Why evaluation fails -/

namespace Recast

/-- Values, types and operators are recorded by their texts. -/
inductive EvalError where
  | unboundParameter (name : String)
  | noSuchMember (member value : String)
  | nullReference (reading : String)
  | badOperands (op left right : String)
  | badOperand (op operand : String)
  | arithmetic (op : String)
  | badConversion (value target : String)
  | unsupportedMethod (name : String)
  | typeMismatch (expected found : String)
  | emptySequence
  | indexOutOfRange (index : Int)
  /-- Lambdas nested deeper in their own application than the evaluator follows. -/
  | tooDeep
  deriving DecidableEq, Repr, Inhabited

/-- One word for the cause. -/
def EvalError.kind : EvalError → String
  | unboundParameter _ => "UnboundParameter"
  | noSuchMember _ _ => "NoSuchMember"
  | nullReference _ => "NullReference"
  | badOperands _ _ _ => "BadOperands"
  | badOperand _ _ => "BadOperand"
  | arithmetic _ => "Arithmetic"
  | badConversion _ _ => "BadConversion"
  | unsupportedMethod _ => "UnsupportedMethod"
  | typeMismatch _ _ => "TypeMismatch"
  | emptySequence => "EmptySequence"
  | indexOutOfRange _ => "IndexOutOfRange"
  | tooDeep => "TooDeep"

def EvalError.message : EvalError → String
  | unboundParameter name => "unbound parameter " ++ name
  | noSuchMember member value => "member " ++ member ++ " not available on " ++ value
  | nullReference reading => "null reference reading " ++ reading
  | badOperands op left right => "cannot apply " ++ op ++ " to " ++ left ++ " and " ++ right
  | badOperand op operand => "cannot apply " ++ op ++ " to " ++ operand
  | arithmetic op => "arithmetic overflow or division by zero in " ++ op
  | badConversion value target => "cannot convert " ++ value ++ " to " ++ target
  | unsupportedMethod name => "method " ++ name ++ " is not supported by the evaluator"
  | typeMismatch expected found => "expected " ++ expected ++ " but found " ++ found
  | emptySequence => "sequence contains no elements"
  | indexOutOfRange index => "index " ++ toString index ++ " out of range"
  | tooDeep => "evaluation is nested too deeply"

end Recast
