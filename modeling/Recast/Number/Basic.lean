import Recast.Number.Shortest

/-! # Numbers

A number is an integer of up to 64 bits, signed or not, or a finite float.  The
two never compare equal by `==`, even when they stand for the same number.

- `Num.toInt64?` — integers in signed range only.
- `Num.asInt64` — any number as a signed integer: a float is truncated, and what
  lies outside the range becomes the nearest end of it.
- `Num.text` — digits for integers, the shortest decimal for floats.
-/

namespace Recast

def int64Min : Int := -9223372036854775808

def int64Max : Int := 9223372036854775807

def inInt64 (n : Int) : Bool := int64Min ≤ n && n ≤ int64Max

/-- The nearest signed 64-bit integer. -/
def clampInt64 (n : Int) : Int := max int64Min (min int64Max n)

inductive Num where
  | int (n : Int)
  | float (f : Float)
  deriving Inhabited

namespace Num

/-- Same kind and same number; floats compare as numbers, so the two zeros are equal. -/
def beq : Num → Num → Bool
  | .int m, .int n => m == n
  | .float x, .float y => x == y
  | _, _ => false

instance : BEq Num := ⟨Num.beq⟩

/-- The number of a float; none if it is infinite or not a number. -/
def ofFloat? (f : Float) : Option Num :=
  if f.isFinite then some (.float f) else none

def toInt64? : Num → Option Int
  | .int n => if inInt64 n then some n else none
  | .float _ => none

def toFloat : Num → Float
  | .int n => floatOfInt n
  | .float f => f

def asInt64 : Num → Int
  | .int n => clampInt64 n
  | .float f => clampInt64 (truncate f)

/-- Equal as numbers: exactly between signed integers, as floats otherwise. -/
def sameNumber (x y : Num) : Bool :=
  match x.toInt64?, y.toInt64? with
  | some m, some n => m == n
  | _, _ => x.toFloat == y.toFloat

/-- Order as numbers: exactly between signed integers, as floats otherwise. -/
def order (x y : Num) : Ordering :=
  match x.toInt64?, y.toInt64? with
  | some m, some n => compare m n
  | _, _ => (Dyadic.ofFloat x.toFloat).order (Dyadic.ofFloat y.toFloat)

def text : Num → String
  | .int n => toString n
  | .float f => floatText f

end Num

/-- The float nearest to `±digits · 10 ^ exponent`.  Exponents from 400 on give infinity, and those
400 places below the digits give zero, so they need not be told apart. -/
def floatOfDecimal (negative : Bool) (digits : Nat) (exponent : Int) : Float :=
  let low : Int := -((Nat.toDigits 10 digits).length : Int) - 400
  let exponent := if digits = 0 then 0 else max low (min 400 exponent)
  let f := Float.ofScientific digits (exponent < 0) exponent.natAbs
  if negative then -f else f

end Recast
