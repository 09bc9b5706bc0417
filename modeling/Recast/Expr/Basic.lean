import Recast.Calendar
import Recast.Guid
import Recast.Number.Basic
import Recast.Ty.Method
import Recast.Expr.Operator

/-! # Expressions and values

Typed lambda expressions and the values they compute.  The two are defined
together: a constant carries a value, and a lambda is a value that carries an
expression.

- `Expr.ty` — every node has a static type, stored or taken from its parts.
- `Expr.children`, `Expr.nodes` — the nodes directly below, in the order they are
  evaluated, and all nodes.
- `Expr.substitute` — an expression put in the place of a parameter.
- `Expr.beq`, `Value.beq` — structural comparison.  Parameters are the same only
  if their identities are, whatever their names; records are the same whatever
  the order of their fields.
-/

namespace Recast

/-- A lambda parameter.  The `id` tells apart parameters of one name. -/
structure Parameter where
  id : Nat
  name : String
  ty : Ty
  deriving DecidableEq, Inhabited

mutual

inductive Value where
  | null
  | bool (b : Bool)
  | num (n : Num)
  | char (c : Char)
  | str (s : String)
  | guid (g : Guid)
  | dateTime (t : LocalTime)
  | dateTimeOffset (t : OffsetTime)
  | timeSpan (s : Span)
  /-- A variant of an enumeration, by name. -/
  | enum (variant : String)
  | record (ty : Ty) (fields : List (String × Value))
  | list (items : List Value)
  /-- A lambda used as a value; it carries no bindings. -/
  | lambda (e : Expr)

inductive Expr where
  | param (p : Parameter)
  | const (value : Value) (ty : Ty)
  | member (target : Expr) (m : Member)
  /-- Parameters, body and delegate type. -/
  | lambda (params : List Parameter) (body : Expr) (ty : Ty)
  | unary (op : UnaryOp) (operand : Expr) (ty : Ty)
  /-- Operands, the conversion lambda of a coalescing operator if any, result type. -/
  | binary (op : BinaryOp) (left right : Expr) (conversion : Option Expr) (ty : Ty)
  | cond (test whenTrue whenFalse : Expr) (ty : Ty)
  /-- A method on an instance or, without one, on its declaring type. -/
  | call (instance? : Option Expr) (method : Method) (args : List Expr)
  /-- A record or anonymous record with its members initialised. -/
  | new (ty : Ty) (inits : List (String × Expr))
  | newArray (ty : Ty) (items : List Expr)
  /-- Whether the operand is a `tested`; the last type is the type of the answer. -/
  | typeIs (operand : Expr) (tested ty : Ty)
  | invoke (function : Expr) (args : List Expr) (ty : Ty)
  | default (ty : Ty)

end

instance : Inhabited Value := ⟨.null⟩
instance : Inhabited Expr := ⟨.default .object⟩

/-! ## Comparison -/

mutual

def Value.beq : Value → Value → Bool
  | .null, .null => true
  | .bool a, .bool b => a == b
  | .num a, .num b => a == b
  | .char a, .char b => a == b
  | .str a, .str b => a == b
  | .guid a, .guid b => a == b
  | .dateTime a, .dateTime b => a == b
  | .dateTimeOffset a, .dateTimeOffset b => a.instant == b.instant
  | .timeSpan a, .timeSpan b => a == b
  | .enum a, .enum b => a == b
  | .record t fs, .record t' gs => t == t' && fs.length == gs.length && Value.beqFields fs gs
  | .list xs, .list ys => Value.beqAll xs ys
  | .lambda e, .lambda e' => Expr.beq e e'
  | _, _ => false
termination_by structural x => x

def Value.beqAll : List Value → List Value → Bool
  | [], [] => true
  | x :: xs, y :: ys => Value.beq x y && Value.beqAll xs ys
  | _, _ => false
termination_by structural x => x

/-- Every field has an equal counterpart of its name. -/
def Value.beqFields : List (String × Value) → List (String × Value) → Bool
  | [], _ => true
  | (name, x) :: fs, gs =>
    (match gs.lookup name with
      | some y => Value.beq x y
      | none => false) && Value.beqFields fs gs
termination_by structural x => x

def Expr.beq : Expr → Expr → Bool
  | .param p, .param q => p == q
  | .const v t, .const w u => Value.beq v w && t == u
  | .member e m, .member e' m' => Expr.beq e e' && m == m'
  | .lambda ps b t, .lambda ps' b' t' => ps == ps' && Expr.beq b b' && t == t'
  | .unary op e t, .unary op' e' t' => op == op' && Expr.beq e e' && t == t'
  | .binary op a b none t, .binary op' a' b' none t' =>
    op == op' && Expr.beq a a' && Expr.beq b b' && t == t'
  | .binary op a b (some c) t, .binary op' a' b' (some c') t' =>
    op == op' && Expr.beq a a' && Expr.beq b b' && Expr.beq c c' && t == t'
  | .cond c a b t, .cond c' a' b' t' =>
    Expr.beq c c' && Expr.beq a a' && Expr.beq b b' && t == t'
  | .call none m as, .call none m' as' => m == m' && Expr.beqAll as as'
  | .call (some i) m as, .call (some i') m' as' => Expr.beq i i' && m == m' && Expr.beqAll as as'
  | .new t is, .new t' is' => t == t' && Expr.beqInits is is'
  | .newArray t es, .newArray t' es' => t == t' && Expr.beqAll es es'
  | .typeIs e t u, .typeIs e' t' u' => Expr.beq e e' && t == t' && u == u'
  | .invoke f as t, .invoke f' as' t' => Expr.beq f f' && Expr.beqAll as as' && t == t'
  | .default t, .default t' => t == t'
  | _, _ => false
termination_by structural x => x

def Expr.beqAll : List Expr → List Expr → Bool
  | [], [] => true
  | x :: xs, y :: ys => Expr.beq x y && Expr.beqAll xs ys
  | _, _ => false
termination_by structural x => x

def Expr.beqInits : List (String × Expr) → List (String × Expr) → Bool
  | [], [] => true
  | (n, x) :: xs, (m, y) :: ys => n == m && Expr.beq x y && Expr.beqInits xs ys
  | _, _ => false
termination_by structural x => x

end

instance : BEq Value := ⟨Value.beq⟩
instance : BEq Expr := ⟨Expr.beq⟩

namespace Expr

/-! ## Types and children -/

/-- The static type of a node. -/
def ty : Expr → Ty
  | .param p => p.ty
  | .const _ t => t
  | .member _ m => m.ty
  | .lambda _ _ t => t
  | .unary _ _ t => t
  | .binary _ _ _ _ t => t
  | .cond _ _ _ t => t
  | .call _ m _ => m.ret
  | .new t _ => t
  | .newArray t _ => t
  | .typeIs _ _ t => t
  | .invoke _ _ t => t
  | .default t => t

def children : Expr → List Expr
  | .param _ | .const _ _ | .default _ => []
  | .member e _ | .unary _ e _ | .typeIs e _ _ => [e]
  | .lambda _ body _ => [body]
  | .binary _ l r conversion _ => l :: r :: conversion.toList
  | .cond c a b _ => [c, a, b]
  | .call target _ args => target.toList ++ args
  | .new _ inits => inits.map (·.2)
  | .newArray _ items => items
  | .invoke f args _ => f :: args

/-! ## Walks -/

mutual

/-- The number of nodes. -/
def size : Expr → Nat
  | .param _ | .const _ _ | .default _ => 1
  | .member e _ | .unary _ e _ | .typeIs e _ _ | .lambda _ e _ => size e + 1
  | .binary _ l r none _ => size l + size r + 1
  | .binary _ l r (some c) _ => size l + size r + size c + 1
  | .cond c a b _ => size c + size a + size b + 1
  | .call none _ args => sizeAll args + 1
  | .call (some e) _ args => size e + sizeAll args + 1
  | .new _ inits => sizeInits inits + 1
  | .newArray _ items => sizeAll items + 1
  | .invoke f args _ => size f + sizeAll args + 1

def sizeAll : List Expr → Nat
  | [] => 0
  | e :: es => size e + sizeAll es

def sizeInits : List (String × Expr) → Nat
  | [] => 0
  | (_, e) :: es => size e + sizeInits es

end

mutual

/-- The node and all nodes below it, every node before its children. -/
def nodes : Expr → List Expr
  | e@(.param _) | e@(.const _ _) | e@(.default _) => [e]
  | e@(.member a _) | e@(.unary _ a _) | e@(.typeIs a _ _) | e@(.lambda _ a _) => e :: nodes a
  | e@(.binary _ l r none _) => e :: (nodes l ++ nodes r)
  | e@(.binary _ l r (some c) _) => e :: (nodes l ++ nodes r ++ nodes c)
  | e@(.cond c a b _) => e :: (nodes c ++ nodes a ++ nodes b)
  | e@(.call none _ args) => e :: nodesAll args
  | e@(.call (some t) _ args) => e :: (nodes t ++ nodesAll args)
  | e@(.new _ inits) => e :: nodesInits inits
  | e@(.newArray _ items) => e :: nodesAll items
  | e@(.invoke f args _) => e :: (nodes f ++ nodesAll args)

def nodesAll : List Expr → List Expr
  | [] => []
  | e :: es => nodes e ++ nodesAll es

def nodesInits : List (String × Expr) → List Expr
  | [] => []
  | (_, e) :: es => nodes e ++ nodesInits es

end

mutual

/-- Every reference to the parameter `id` replaced; other types stay as they are. -/
def substitute (id : Nat) (replacement : Expr) : Expr → Expr
  | e@(.param p) => if p.id = id then replacement else e
  | e@(.const _ _) | e@(.default _) => e
  | .member e m => .member (substitute id replacement e) m
  | .lambda ps body t => .lambda ps (substitute id replacement body) t
  | .unary op e t => .unary op (substitute id replacement e) t
  | .binary op l r none t =>
    .binary op (substitute id replacement l) (substitute id replacement r) none t
  | .binary op l r (some c) t =>
    .binary op (substitute id replacement l) (substitute id replacement r)
      (some (substitute id replacement c)) t
  | .cond c a b t =>
    .cond (substitute id replacement c) (substitute id replacement a)
      (substitute id replacement b) t
  | .call none m args => .call none m (substituteAll id replacement args)
  | .call (some e) m args =>
    .call (some (substitute id replacement e)) m (substituteAll id replacement args)
  | .new t inits => .new t (substituteInits id replacement inits)
  | .newArray t items => .newArray t (substituteAll id replacement items)
  | .typeIs e tested t => .typeIs (substitute id replacement e) tested t
  | .invoke f args t =>
    .invoke (substitute id replacement f) (substituteAll id replacement args) t

def substituteAll (id : Nat) (replacement : Expr) : List Expr → List Expr
  | [] => []
  | e :: es => substitute id replacement e :: substituteAll id replacement es

def substituteInits (id : Nat) (replacement : Expr) :
    List (String × Expr) → List (String × Expr)
  | [] => []
  | (name, e) :: es => (name, substitute id replacement e) :: substituteInits id replacement es

end

/-! ## Views -/

/-- A constant under any number of conversions. -/
def isConstant : Expr → Bool
  | .const _ _ => true
  | .unary op e _ => op.isConversion && isConstant e
  | _ => false

/-- Parameters, body and type of a lambda, looking through quotes. -/
def lambdaParts? : Expr → Option (List Parameter × Expr × Ty)
  | .lambda ps body t => some (ps, body, t)
  | .unary .quote e _ => lambdaParts? e
  | _ => none

/-- The innermost expression under a chain of member accesses. -/
def chainBase : Expr → Expr
  | .member e _ => chainBase e
  | e => e

/-- The member names that lead from `chainBase` to the expression. -/
def chainNames : Expr → List String
  | .member e m => chainNames e ++ [m.name]
  | _ => []

def isMember : Expr → Bool
  | .member _ _ => true
  | _ => false

def isBinary : Expr → Bool
  | .binary _ _ _ _ _ => true
  | _ => false

/-- The member accesses of `members` one after another. -/
def select (e : Expr) (members : List Member) : Expr := members.foldl .member e

end Expr

end Recast
