import Recast.Text.Case
import Recast.Expr.Text
import Recast.Value.Basic
import Recast.Eval.Error

/-! # Operators on values

The operators that evaluate all their operands, and the members and methods
that values have by themselves.  None of these applies a lambda.

- `checked` — integer arithmetic is exact or an error.
- `operatorValue` — null makes a comparison false and an arithmetic result null.
- `valueMember`, `textMethod` — built-in members and the methods of strings.
-/

namespace Recast

/-! ## Arithmetic -/

/-- An integer result, if it is in signed 64-bit range. -/
def checked (op : String) (n : Int) : Except EvalError Value :=
  if inInt64 n then .ok (.int n) else .error (.arithmetic op)

def integerArithmetic (op : BinaryOp) (a b : Int) : Except EvalError Value :=
  match op with
  | .subtract => checked op.symbol (a - b)
  | .multiply => checked op.symbol (a * b)
  | .divide => if b = 0 then .error (.arithmetic op.symbol) else checked op.symbol (a.tdiv b)
  | .modulo =>
    -- the remainder is in range, but the quotient it belongs to has to be as well
    if b = 0 ∨ !inInt64 (a.tdiv b) then .error (.arithmetic op.symbol)
    else checked op.symbol (a.tmod b)
  | _ => checked op.symbol (a + b)

def floatArithmetic (op : BinaryOp) (a b : Float) : Float :=
  match op with
  | .subtract => a - b
  | .multiply => a * b
  | .divide => a / b
  | .modulo => remainder a b
  | _ => a + b

/-- The value of an arithmetic operator; none if the operands do not fit it. -/
def arithmetic? (integral : Bool) (op : BinaryOp) (left right : Value) :
    Option (Except EvalError Value) :=
  match left, right with
  | .null, _ => some (.ok .null)
  | _, .null => some (.ok .null)
  | .str a, .str b => if op = .add then some (.ok (.str (a ++ b))) else none
  | .num a, .num b =>
    if !op.isArithmetic then none
    else if integral then some (integerArithmetic op a.asInt64 b.asInt64)
    else some (.ok (.float (floatArithmetic op a.toFloat b.toFloat)))
  | .dateTime t, .timeSpan s =>
    if op = .add then some (.ok (.dateTime (t.plus s))) else none
  | .dateTime a, .dateTime b =>
    if op = .subtract then some (.ok (.timeSpan (a.since b))) else none
  | .dateTimeOffset a, .dateTimeOffset b =>
    if op = .subtract then some (.ok (.timeSpan (a.instant.since b.instant))) else none
  | .timeSpan a, .timeSpan b =>
    if op = .add then some (.ok (.timeSpan ⟨a.nanos + b.nanos⟩))
    else if op = .subtract then some (.ok (.timeSpan ⟨a.nanos - b.nanos⟩))
    else none
  | _, _ => none

/-! ## Logic -/

def badOperands (op : BinaryOp) (left right : Value) : EvalError :=
  .badOperands op.symbol left.text right.text

/-- Conjunction for `And` and `AndAlso`, disjunction otherwise; null with anything is null. -/
def connective (op : BinaryOp) (left right : Value) : Except EvalError Value :=
  match left, right with
  | .bool a, .bool b => .ok (.bool (if op = .andAlso ∨ op = .and then a && b else a || b))
  | .null, _ => .ok .null
  | _, .null => .ok .null
  | _, _ => .error (badOperands op left right)

/-- Bits of two 64-bit integers combined. -/
def bitwise (op : BinaryOp) (a b : Int) : Int :=
  let x := BitVec.ofInt 64 a
  let y := BitVec.ofInt 64 b
  if op = .and then (x &&& y).toInt else (x ||| y).toInt

/-- The comparison holds for operands in the given order. -/
def BinaryOp.accepts (op : BinaryOp) (o : Ordering) : Bool :=
  match op with
  | .lessThan => o == .lt
  | .lessThanOrEqual => o != .gt
  | .greaterThan => o == .gt
  | _ => o != .lt

/-- Operators that evaluate both operands; `integral` says that the result type is. -/
def operatorValue (integral : Bool) (op : BinaryOp) (left right : Value) : Except EvalError Value :=
  let bad := badOperands op left right
  match op with
  | .equal => .ok (.bool (left.sameValue right))
  | .notEqual => .ok (.bool (!left.sameValue right))
  | .lessThan | .lessThanOrEqual | .greaterThan | .greaterThanOrEqual =>
    if left.isNull || right.isNull then .ok (.bool false)
    else match left.order? right with
      | some o => .ok (.bool (op.accepts o))
      | none => .error bad
  | .and | .or =>
    match left, right with
    | .num a, .num b => .ok (.int (bitwise op a.asInt64 b.asInt64))
    | _, _ => connective op left right
  | .arrayIndex =>
    match right.asInt64?, left.asList? with
    | some i, some items =>
      match if i < 0 then none else items[i.toNat]? with
      | some v => .ok v
      | none => .error (.indexOutOfRange i)
    | _, _ => .error bad
  | _ =>
    match arithmetic? integral op left right with
    | some result => result
    | none => .error bad

/-! ## Unary operators -/

def badOperand (op : UnaryOp) (operand : Value) : EvalError := .badOperand op.name operand.text

def negation (v : Value) : Except EvalError Value :=
  match v with
  | .bool b => .ok (.bool (!b))
  | .null => .ok .null
  | .num n => .ok (.int (-n.asInt64 - 1))
  | _ => .error (badOperand .not v)

def negated (v : Value) : Except EvalError Value :=
  match v with
  | .null => .ok .null
  | .timeSpan s => .ok (.timeSpan ⟨-s.nanos⟩)
  | .num n =>
    match n.toInt64? with
    | some i => checked UnaryOp.negate.name (-i)
    | none => .ok (.float (-n.toFloat))
  | _ => .error (badOperand .negate v)

/-! ## Members -/

/-- Members of a date. -/
def dateMember? (t : LocalTime) (name : String) : Option Value :=
  match name with
  | "Year" => some (.int t.date.year)
  | "Month" => some (.int t.date.month)
  | "Day" => some (.int t.date.day)
  | "Date" => some (.dateTime t.midnight)
  | _ => none

/-- A member that is read off the value alone. -/
def ownMember? (v : Value) (name : String) : Option Value :=
  match v with
  | .record _ fields => fields.lookup name
  | .list items => if name = "Count" ∨ name = "Length" then some (.int items.length) else none
  | .str s => if name = "Length" then some (.int s.length) else none
  | .dateTime t => dateMember? t name
  | .dateTimeOffset t => dateMember? t.toLocal name
  | _ => none

/-- A member of a value whose static type is nullable or not. -/
def valueMember (isNullable : Bool) (v : Value) (name : String) : Except EvalError Value :=
  if isNullable && name == "HasValue" then .ok (.bool (!v.isNull))
  else if v.isNull then .error (.nullReference name)
  else if isNullable && name == "Value" then .ok v
  else match ownMember? v name with
    | some w => .ok w
    | none => .error (.noSuchMember name v.text)

/-! ## Methods of strings -/

def isInfix (part : List Char) : List Char → Bool
  | [] => part.isEmpty
  | c :: cs => part.isPrefixOf (c :: cs) || isInfix part cs

def textArgument (args : List Value) : Except EvalError (List Char) :=
  match args with
  | .str s :: _ => .ok s.toList
  | v :: _ => .error (.typeMismatch "String" v.text)
  | [] => .error (.typeMismatch "String" "")

def textMethod (m : Method) (s : String) (args : List Value) : Except EvalError Value :=
  match m.name with
  | "StartsWith" => (textArgument args).map fun t => .bool (t.isPrefixOf s.toList)
  | "EndsWith" => (textArgument args).map fun t => .bool (t.isSuffixOf s.toList)
  | "Contains" => (textArgument args).map fun t => .bool (isInfix t s.toList)
  | "Equals" => (textArgument args).map fun t => .bool (s.toList == t)
  | "ToUpper" => .ok (.str (Text.toCapitals s))
  | "ToLower" => .ok (.str (Text.toSmalls s))
  | "Trim" => .ok (.str (Text.trimBlanks s))
  | "ToString" => .ok (.str s)
  | _ => .error (.unsupportedMethod m.qualifiedName)

/-- The methods of every value. -/
def objectMethod (m : Method) (v : Value) (args : List Value) : Except EvalError Value :=
  match m.name, args with
  | "ToString", _ => .ok (.str v.plain)
  | "Equals", other :: _ => .ok (.bool (v.sameValue other))
  | "Equals", [] => .ok (.bool false)
  | _, _ => .error (.unsupportedMethod m.qualifiedName)

end Recast
