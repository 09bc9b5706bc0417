import Recast.Expr.Basic

/-! # Operations on values

- `asInt64?`, `asFloat?`, `asBool?`, `asStr?`, `asList?`, `field?` — the views of
  a value; none where the value has no such view.
- `sameValue` — equality that does not tell integers from floats.
- `order?` — the natural order of values of one kind; none for nulls and
  values of different kinds.
-/

namespace Recast

namespace Value

def int (n : Int) : Value := .num (.int n)

/-- Infinities and what is not a number become null. -/
def float (f : Float) : Value :=
  match Num.ofFloat? f with
  | some n => .num n
  | none => .null

def isNull : Value → Bool
  | .null => true
  | _ => false

def asBool? : Value → Option Bool
  | .bool b => some b
  | _ => none

def asInt64? : Value → Option Int
  | .num n => some n.asInt64
  | .char c => some c.toNat
  | _ => none

def asFloat? : Value → Option Float
  | .num n => some n.toFloat
  | _ => none

def asStr? : Value → Option String
  | .str s => some s
  | _ => none

def asList? : Value → Option (List Value)
  | .list items => some items
  | _ => none

def asFields? : Value → Option (List (String × Value))
  | .record _ fields => some fields
  | _ => none

def field? (v : Value) (name : String) : Option Value := v.asFields?.bind (·.lookup name)

/-- The fields with one set: a known name keeps its position. -/
def putField (fields : List (String × Value)) (name : String) (v : Value) :
    List (String × Value) :=
  if fields.any (·.1 == name) then fields.map fun f => if f.1 == name then (name, v) else f
  else fields ++ [(name, v)]

def sameValue : Value → Value → Bool
  | .num a, .num b => a.sameNumber b
  | a, b => a == b

def order? : Value → Value → Option Ordering
  | .num a, .num b => some (a.order b)
  | .str a, .str b => some (compare a b)
  | .char a, .char b => some (compare a.toNat b.toNat)
  | .bool a, .bool b => some (compare a.toNat b.toNat)
  | .dateTime a, .dateTime b => some (a.order b)
  | .dateTimeOffset a, .dateTimeOffset b => some (a.instant.order b.instant)
  | .timeSpan a, .timeSpan b => some (compare a.nanos b.nanos)
  | .guid a, .guid b => some (compare a.value b.value)
  | _, _ => none

end Value

end Recast
