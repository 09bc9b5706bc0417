import Recast.Error
import Recast.Expr.Basic
import Recast.Name

/-! # Checked construction

The typed way to build expressions: every function derives the type of the node
and refuses operands that do not fit.

- `Registry.resultType` — the result type of a binary operator.  Operators on
  numbers lift to nullable operands.
- `Registry.mkMember`, `mkLambda`, `mkUnary`, `mkBinary`, `mkCall`, … — one
  function for each kind of node.
-/

namespace Recast

abbrev Checked := Except MappingError

namespace Registry

variable (r : Registry)

/-! ## Members -/

/-- The error for a member that a type lacks, with the nearest names it has. -/
def lacksMember (t : Ty) (name : String) : MappingError :=
  .memberNotFound (r.tyText t) name (Name.suggest name (r.memberNames t) 3 3)

/-- A member by name, or the nearest names instead. -/
def requireMember (t : Ty) (name : String) : Checked Member :=
  match r.member? t name with
  | some m => .ok m
  | none => .error (r.lacksMember t name)

def mkMember (target : Expr) (name : String) : Checked Expr := do
  let m ← r.requireMember target.ty name
  pure (.member target m)

/-- The members of a path one after another. -/
def mkPath (target : Expr) : List String → Checked Expr
  | [] => .ok target
  | name :: names => do
    let e ← r.mkMember target name
    mkPath e names

/-! ## Lambdas -/

/-- A lambda of the delegate type that its parameters and body have. -/
def mkLambda (params : List Parameter) (body : Expr) : Expr :=
  .lambda params body (.func (params.map (·.ty)) body.ty)

def notDelegate (t : Ty) : MappingError :=
  .invalidArgument (r.tyText t ++ " is not a delegate type")

/-- A lambda of a given delegate type, whose parameters are exactly those types and whose
body is assignable to the return type. -/
def mkLambdaTyped (delegate : Ty) (params : List Parameter) (body : Expr) : Checked Expr :=
  let delegate := r.stripExpression delegate
  match r.signature? delegate with
  | none => .error (r.notDelegate delegate)
  | some (ps, ret) =>
    if ps = params.map (·.ty) ∧ r.isAssignable body.ty ret then
      .ok (.lambda params body delegate)
    else .error (.delegateMismatch (r.tyText delegate) (r.tyText (mkLambda params body).ty))

def mkQuote (lambda : Expr) : Checked Expr :=
  if r.isDelegate lambda.ty then
    .ok (.unary .quote lambda (.expression (r.stripExpression lambda.ty)))
  else .error (.unaryOperatorNotDefined UnaryOp.quote.name (r.tyText lambda.ty))

/-! ## Unary operators -/

/-- A conversion to `ty`: an existing one or, for `TypeAs`, to any type that has null. -/
def mkConversion (op : UnaryOp) (operand : Expr) (ty : Ty) : Checked Expr :=
  let valid := if op = .typeAs then !r.isValueType ty || (r.underlying? ty).isSome
    else r.isConvertible operand.ty ty
  if valid then .ok (.unary op operand ty)
  else .error (.invalidConversion (r.tyText operand.ty) (r.tyText ty))

def mkConvert (operand : Expr) (ty : Ty) : Checked Expr := r.mkConversion .convert operand ty

/-- The result type of an operator that derives one. -/
def unaryResultType? (op : UnaryOp) (t : Ty) : Option Ty :=
  match op with
  | .not => if (r.literal? t).any fun l => l == .boolean || l.isIntegral then some t else none
  | .negate => if (r.literal? t).any fun l => l.isNumeric || l == .timeSpan then some t else none
  | .arrayLength => if r.former? t = some .array then some .int32 else none
  | _ => none

def mkUnary (op : UnaryOp) (operand : Expr) : Checked Expr :=
  match op with
  | .quote => r.mkQuote operand
  | .convert | .convertChecked | .typeAs => r.mkConversion op operand operand.ty
  | _ =>
    match r.unaryResultType? op operand.ty with
    | some t => .ok (.unary op operand t)
    | none => .error (.unaryOperatorNotDefined op.name (r.tyText operand.ty))

/-! ## Binary operators -/

/-- The type, made nullable if one of the operands is. -/
def lifted (left right t : Ty) : Ty :=
  if left ≠ r.stripNullable left ∨ right ≠ r.stripNullable right then r.nullable t else t

/-- The literal that both operands have beneath `Nullable<>`. -/
def commonLiteral? (left right : Ty) : Option Literal :=
  if r.stripNullable left = r.stripNullable right then r.literal? (r.stripNullable left) else none

def areComparable (left right : Ty) : Bool :=
  r.stripNullable left == r.stripNullable right || r.isAssignable left right ||
    r.isAssignable right left || (!r.isValueType left && !r.isValueType right)

def resultType? (op : BinaryOp) (left right : Ty) : Option Ty :=
  let plain := r.stripNullable left
  let common := r.commonLiteral? left right
  match op with
  | .equal | .notEqual => if r.areComparable left right then some .boolean else none
  | .lessThan | .lessThanOrEqual | .greaterThan | .greaterThanOrEqual =>
    if common.any (·.isOrdered) || (plain == r.stripNullable right && r.isEnum plain) then
      some .boolean
    else none
  | .add =>
    if common = some .string then some .string
    else if common.any fun l => l.isNumeric || l == .timeSpan then some (r.lifted left right plain)
    else if r.literal? plain = some .dateTime ∧
        r.literal? (r.stripNullable right) = some .timeSpan then
      some (r.lifted left right plain)
    else none
  | .subtract =>
    if common.any fun l => l.isNumeric || l == .timeSpan then some (r.lifted left right plain)
    else if common.any fun l => l == .dateTime || l == .dateTimeOffset then
      some (r.lifted left right .timeSpan)
    else none
  | .multiply | .divide | .modulo =>
    if common.any (·.isNumeric) then some (r.lifted left right plain) else none
  | .and | .or =>
    if common.any fun l => l == .boolean || l.isIntegral then some (r.lifted left right plain)
    else none
  | .andAlso | .orElse => if common = some .boolean then some (r.lifted left right plain) else none
  | .coalesce =>
    if !r.isValueType left || (r.underlying? left).isSome then
      if right = plain then some plain
      else if r.isAssignable right left then some left
      else none
    else none
  | .arrayIndex =>
    if r.former? left = some .array ∧ r.literal? right = some .int32 then r.element? left
    else none

def resultType (op : BinaryOp) (left right : Ty) : Checked Ty :=
  match r.resultType? op left right with
  | some t => .ok t
  | none => .error (.operatorNotDefined op.symbol (r.tyText left) (r.tyText right))

/-- A binary operation, with the conversion lambda of a coalescing operator if any. -/
def mkBinary (op : BinaryOp) (left right : Expr) (conversion : Option Expr) : Checked Expr := do
  let t ← r.resultType op left.ty right.ty
  pure (.binary op left right conversion t)

/-! ## Conditionals -/

def mkCond (test whenTrue whenFalse : Expr) : Checked Expr :=
  if r.literal? test.ty ≠ some .boolean ∨ (r.underlying? test.ty).isSome then
    .error (.invalidArgument ("conditional test must be Boolean, found " ++ r.tyText test.ty))
  else if whenTrue.ty ≠ whenFalse.ty then
    .error (.branchTypeMismatch (r.tyText whenTrue.ty) (r.tyText whenFalse.ty))
  else .ok (.cond test whenTrue whenFalse whenTrue.ty)

/-! ## Calls -/

/-- The first argument that is not assignable to its parameter. -/
def checkArguments (m : Method) (index : Nat) : List Ty → List Expr → Checked Unit
  | expected :: params, arg :: args =>
    if r.isAssignable arg.ty expected then checkArguments m (index + 1) params args
    else .error (.argumentTypeMismatch m.qualifiedName index (r.tyText expected) (r.tyText arg.ty))
  | _, _ => .ok ()

/-- A call of a closed method, on an instance exactly if the method is not static. -/
def mkCall (target : Option Expr) (m : Method) (args : List Expr) : Checked Expr :=
  if m.isStatic = target.isSome then
    .error (.invalidArgument (m.qualifiedName ++
      (if m.isStatic then " does not take" else " requires") ++ " an instance"))
  else if m.params.length ≠ args.length then
    .error (.argumentCount m.qualifiedName m.params.length args.length)
  else do
    r.checkArguments m 0 m.params args
    pure (.call target m args)

/-- A method of the catalogue closed for arguments of the given types.  Type arguments that are
not given are inferred. -/
def methodFor (declaring name : String) (typeArgs argTypes : List Ty) : Checked Method :=
  let qualified := declaring ++ "." ++ name
  match r.method? declaring name argTypes.length with
  | none => .error (.methodNotFound qualified)
  | some d =>
    let m? := if typeArgs.isEmpty && 0 < d.typeParams then r.closeByArguments? d argTypes
      else r.closeMethod? d typeArgs
    match m? with
    | none => .error (.methodInstantiation qualified)
    | some m => .ok m

/-- A call of a static method of the catalogue. -/
def mkStaticCall (declaring name : String) (typeArgs : List Ty) (args : List Expr) :
    Checked Expr := do
  let m ← r.methodFor declaring name typeArgs (args.map (·.ty))
  r.mkCall none m args

/-- A call on an instance: strings have methods of their own besides those of every object. -/
def mkInstanceCall (target : Expr) (name : String) (args : List Expr) : Checked Expr :=
  let declaring := if r.literal? target.ty = some .string then "String" else "Object"
  let qualified := declaring ++ "." ++ name
  match (r.method? declaring name args.length).or (r.method? "Object" name args.length) with
  | none => .error (.methodNotFound qualified)
  | some d =>
    match r.closeMethod? d [] with
    | none => .error (.methodInstantiation qualified)
    | some m => r.mkCall (some target) m args

/-! ## Construction -/

def checkInits (t : Ty) : List (String × Expr) → Checked Unit
  | [] => .ok ()
  | (name, e) :: inits => do
    let m ← r.requireMember t name
    if r.isAssignable e.ty m.ty then checkInits t inits
    else .error (.invalidConversion (r.tyText e.ty) (r.tyText m.ty))

def mkNew (t : Ty) (inits : List (String × Expr)) : Checked Expr := do
  r.checkInits t inits
  pure (.new t inits)

/-- An anonymous record of the type that its values have. -/
def mkAnonymous (inits : List (String × Expr)) : Expr :=
  .new (.anonymous (inits.map fun i => ⟨i.1, i.2.ty⟩)) inits

def mkNewArray (element : Ty) (items : List Expr) : Checked Expr :=
  match items.find? fun e => !r.isAssignable e.ty element with
  | some e => .error (.invalidConversion (r.tyText e.ty) (r.tyText element))
  | none => .ok (.newArray (.array element) items)

def mkTypeIs (operand : Expr) (tested : Ty) : Expr := .typeIs operand tested .boolean

/-- The number of arguments is checked, their types are not. -/
def mkInvoke (f : Expr) (args : List Expr) : Checked Expr :=
  match r.signature? f.ty with
  | none => .error (r.notDelegate f.ty)
  | some (params, ret) =>
    if params.length = args.length then .ok (.invoke f args ret)
    else .error (.argumentCount "Invoke" params.length args.length)

end Registry

end Recast
