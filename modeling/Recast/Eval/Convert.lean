import Recast.Expr.Text
import Recast.Value.Basic
import Recast.Eval.Error

/-! # Conversion of scalar values

- `Registry.castValue` — what an explicit conversion between two static types
  does to a value.  A conversion to a type that is no number, character, date
  or enumeration keeps the value.
- `Registry.defaultOf` — the value of `default(T)`.
-/

namespace Recast

namespace Registry

variable (r : Registry)

/-- The number behind a value: itself, a character's code, a variant's position. -/
def numberOf? (source : Ty) : Value → Option Num
  | .num n => some n
  | .char c => some (.int c.toNat)
  | .enum variant => do
    let variants ← r.variants? source
    let i ← variants.findIdx? (· == variant)
    some (.int i)
  | _ => none

def charOfInt? (n : Int) : Option Char :=
  if n < 0 then none else if n.toNat.isValidChar then some (Char.ofNat n.toNat) else none

/-- A value as a variant of an enumeration: a variant by name, a number by position. -/
def toVariant? (variants : List String) : Value → Option Value
  | .enum v => if variants.contains v then some (.enum v) else none
  | .num n => if n.asInt64 < 0 then none else variants[n.asInt64.toNat]?.map .enum
  | _ => none

/-- A value as a literal of the given kind. -/
def toLiteral? (source : Ty) (l : Literal) (v : Value) : Option Value :=
  match l, v with
  | .dateTime, .dateTimeOffset t => some (.dateTime t.toLocal)
  | .dateTimeOffset, .dateTime t => some (.dateTimeOffset (.atZero t))
  | .char, _ => (r.numberOf? source v).bind fun n => (charOfInt? n.asInt64).map .char
  | _, _ =>
    if l.isIntegral then (r.numberOf? source v).map fun n => .int n.asInt64
    -- the float of a number is finite
    else if l.isFractional then (r.numberOf? source v).map fun n => .num (.float n.toFloat)
    else some v

def castValue (v : Value) (source target : Ty) : Except EvalError Value :=
  let bad := EvalError.badConversion v.text (r.tyText target)
  if v.isNull then
    if r.isValueType target && (r.underlying? target).isNone then
      .error (.nullReference (r.tyText target))
    else .ok .null
  else
    let plain := r.stripNullable target
    let converted :=
      match r.variants? plain with
      | some variants => toVariant? variants v
      | none =>
        match r.literal? plain with
        | some l => r.toLiteral? (r.stripNullable source) l v
        | none => some v
    match converted with
    | some w => .ok w
    | none => .error bad

def defaultLiteral : Literal → Value
  | .boolean => .bool false
  | .char => .char '\x00'
  | .string => .null
  | .guid => .guid .zero
  | .dateTime => .dateTime .first
  | .dateTimeOffset => .dateTimeOffset (.atZero .first)
  | .timeSpan => .timeSpan ⟨0⟩
  | l => if l.isFractional then .float 0 else .int 0

def defaultOf (t : Ty) : Value :=
  match r.variants? t with
  | some (variant :: _) => .enum variant
  | some [] => .null
  | none =>
    match t with
    | .literal l => if r.isRedefined t then .null else defaultLiteral l
    | _ => .null

end Registry

end Recast
