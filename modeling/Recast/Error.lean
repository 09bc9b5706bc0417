import Recast.Eval.Error

/-! # Why mapping fails

- `ValueError` — mapping a value between types.
- `MappingError` — configuring maps, building expressions and recasting them;
  evaluation and value mapping may be what fails inside.
- `MappingError.message`, `notes`, `report` — the cause in one line, advice, and
  both together as a report.

Types, members and expressions are recorded by their texts.
-/

namespace Recast

inductive ValueError where
  | missingMap (source target : String)
  | unsupported (value source target : String)
  | unknownVariant (variant enumType : String)
  | eval (e : EvalError)
  deriving DecidableEq, Repr, Inhabited

/-- One word for the cause, and for an evaluation that failed the word of its cause. -/
def ValueError.kind : ValueError → String
  | missingMap _ _ => "MissingMap"
  | unsupported _ _ _ => "Unsupported"
  | unknownVariant _ _ => "UnknownVariant"
  | eval e => "Eval." ++ e.kind

def ValueError.message : ValueError → String
  | missingMap source target =>
    "Missing map from " ++ source ++ " to " ++ target ++ ". Create using CreateMap<" ++ source ++
      ", " ++ target ++ ">."
  | unsupported value source target =>
    "cannot map " ++ value ++ " from " ++ source ++ " to " ++ target
  | unknownVariant variant enumType => variant ++ " is not a member of " ++ enumType
  | eval e => e.message

inductive MappingError where
  | missingTypeMap (dataType modelType : String)
  | unmappedMember (typeName member path : String)
  | literalTypeMismatch (modelMember dataMember : String)
  | includeTooComplex (first second : String)
  | invalidArgument (detail : String)
  | argumentCountMismatch (modelType dataType : String) (expected actual : Nat)
  | memberNotFound (typeName member : String) (suggestions : List String)
  | operatorNotDefined (op left right : String)
  | unaryOperatorNotDefined (op operand : String)
  | invalidConversion (source target : String)
  | argumentTypeMismatch (method : String) (index : Nat) (expected actual : String)
  | argumentCount (method : String) (expected actual : Nat)
  | methodNotFound (method : String)
  | methodInstantiation (method : String)
  | branchTypeMismatch (whenTrue whenFalse : String)
  | recursionLimit (limit : Nat)
  | ambiguousDestination (modelType candidates : String)
  | delegateMismatch (expected actual : String)
  | invalidConfiguration (detail : String)
  | unmappedMembers (members : List String)
  | invalidOptions (detail : String)
  /-- The options are not a document at all. -/
  | unreadableOptions
  | eval (e : EvalError)
  | value (e : ValueError)
  deriving DecidableEq, Repr, Inhabited

namespace MappingError

/-- One word for the cause; what failed inside is named after its area. -/
def kind : MappingError → String
  | missingTypeMap _ _ => "MissingTypeMap"
  | unmappedMember _ _ _ => "UnmappedMember"
  | literalTypeMismatch _ _ => "LiteralTypeMismatch"
  | includeTooComplex _ _ => "IncludeTooComplex"
  | invalidArgument _ => "InvalidArgument"
  | argumentCountMismatch _ _ _ _ => "ArgumentCountMismatch"
  | memberNotFound _ _ _ => "MemberNotFound"
  | operatorNotDefined _ _ _ => "OperatorNotDefined"
  | unaryOperatorNotDefined _ _ => "UnaryOperatorNotDefined"
  | invalidConversion _ _ => "InvalidConversion"
  | argumentTypeMismatch _ _ _ _ => "ArgumentTypeMismatch"
  | argumentCount _ _ _ => "ArgumentCount"
  | methodNotFound _ => "MethodNotFound"
  | methodInstantiation _ => "MethodInstantiation"
  | branchTypeMismatch _ _ => "BranchTypeMismatch"
  | recursionLimit _ => "RecursionLimit"
  | ambiguousDestination _ _ => "AmbiguousDestination"
  | delegateMismatch _ _ => "DelegateMismatch"
  | invalidConfiguration _ => "InvalidConfiguration"
  | unmappedMembers _ => "UnmappedMembers"
  | invalidOptions _ => "InvalidOptions"
  | unreadableOptions => "InvalidOptions"
  | eval e => "Eval." ++ e.kind
  | value e => "Mapper." ++ e.kind

def message : MappingError → String
  | missingTypeMap dataType modelType =>
    "Missing map from " ++ dataType ++ " to " ++ modelType ++ ". Create using CreateMap<" ++
      dataType ++ ", " ++ modelType ++ ">."
  | unmappedMember typeName member path =>
    "The source member " ++ member ++ " on " ++ typeName ++
      " must be mapped using a custom expression or a source member to be used in the path " ++ path
  | literalTypeMismatch modelMember dataMember =>
    "Literal types must match: cannot map " ++ modelMember ++ " to " ++ dataMember ++
      " without a custom expression"
  | includeTooComplex first second =>
    "The include expression is too complex: found both " ++ first ++ " and " ++ second
  | invalidArgument detail => "invalid argument: " ++ detail
  | argumentCountMismatch modelType dataType expected actual =>
    "argument count mismatch mapping " ++ modelType ++ " to " ++ dataType ++ ": expected " ++
      toString expected ++ ", found " ++ toString actual
  | memberNotFound typeName member _ => "member " ++ member ++ " not found on " ++ typeName
  | operatorNotDefined op left right =>
    "binary operator " ++ op ++ " is not defined for " ++ left ++ " and " ++ right
  | unaryOperatorNotDefined op operand =>
    "unary operator " ++ op ++ " is not defined for " ++ operand
  | invalidConversion source target => "no conversion exists from " ++ source ++ " to " ++ target
  | argumentTypeMismatch method index expected actual =>
    "argument " ++ toString index ++ " of " ++ method ++ ": " ++ actual ++
      " is not assignable to " ++ expected
  | argumentCount method expected actual =>
    method ++ " expects " ++ toString expected ++ " arguments but " ++ toString actual ++
      " were supplied"
  | methodNotFound method => "method " ++ method ++ " not found"
  | methodInstantiation method =>
    "method " ++ method ++ " could not be instantiated for the rewritten argument types"
  | branchTypeMismatch whenTrue whenFalse =>
    "conditional branches have different types " ++ whenTrue ++ " and " ++ whenFalse
  | recursionLimit limit => "rewriting exceeded the maximum depth of " ++ toString limit
  | ambiguousDestination modelType candidates =>
    modelType ++ " is the destination of several maps (from " ++ candidates ++
      "); supply an explicit type pair"
  | delegateMismatch expected actual =>
    "rewritten lambda of type " ++ actual ++ " does not fit the requested delegate " ++ expected
  | invalidConfiguration detail => "invalid configuration: " ++ detail
  | unmappedMembers members => "unmapped members found: " ++ ", ".intercalate members
  | invalidOptions detail => "invalid options: " ++ detail
  | unreadableOptions => "invalid options"
  | eval e => e.message
  | value e => e.message

/-- What to do about it, where there is advice. -/
def notes : MappingError → List String
  | missingTypeMap dataType modelType =>
    ["add create_map(" ++ dataType ++ ", " ++ modelType ++
      ") to the configuration, or reverse_map() on the opposite map"]
  | literalTypeMismatch _ _ =>
    ["configure the member with for_member(..) to supply a converting expression"]
  | includeTooComplex _ _ => ["include expressions must select a single chain of members"]
  | memberNotFound _ _ [] => []
  | memberNotFound _ _ suggestions => ["did you mean " ++ " or ".intercalate suggestions ++ "?"]
  | recursionLimit _ =>
    ["the mapping configuration may refer back to itself",
      "raise max_depth in the rewrite options for very deep expressions"]
  | unmappedMembers _ => ["map each member from a source member, a custom expression or ignore it"]
  | _ => []

/-- The lines of a text.  A line feed ends a line, together with one carriage return
before it, and nothing stands after the last one. -/
def lines : List Char → List (List Char)
  | [] => []
  | '\n' :: rest => [] :: lines rest
  | '\r' :: '\n' :: rest => [] :: lines rest
  | c :: rest =>
    match lines rest with
    | [] => [[c]]
    | line :: more => (c :: line) :: more

/-- A note with its bullet; further lines of it are set under the first. -/
def bulleted (note : String) : String :=
  match (lines note.toList).map String.ofList with
  | [] => ""
  | first :: more => " = " ++ first ++ "\n" ++ String.join (more.map fun l => "   " ++ l ++ "\n")

/-- The message and the notes, each from a line of its own, and an empty line. -/
def report (e : MappingError) : String :=
  "error: " ++ e.message ++ "\n" ++ String.join (e.notes.map bulleted) ++ "\n"

end MappingError

end Recast
