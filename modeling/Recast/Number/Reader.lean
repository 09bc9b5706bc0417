import Recast.Number.Basic

/-! # Reading numbers

- `integerOfText?` — digits with an optional minus sign.
- `floatOfText?` — digits with an optional sign, point and exponent, rounded to
  the nearest float; also `inf`, `infinity` and `nan` in any case.
-/

namespace Recast

/-- The number that decimal digits stand for; none without digits. -/
def digitsValue? (cs : List Char) : Option Nat :=
  if cs.isEmpty || !cs.all Char.isDigit then none
  else some (cs.foldl (fun n c => n * 10 + (c.toNat - '0'.toNat)) 0)

/-- Splits off a sign; true for minus. -/
def splitSign (cs : List Char) : Bool × List Char :=
  match cs with
  | '-' :: rest => (true, rest)
  | '+' :: rest => (false, rest)
  | _ => (false, cs)

def signed (negative : Bool) (n : Nat) : Int := if negative then -(n : Int) else n

def integerOfText? (s : String) : Option Int :=
  match s.toList with
  | '-' :: ds => (digitsValue? ds).map (signed true)
  | ds => (digitsValue? ds).map (signed false)

def isExponentMark (c : Char) : Bool := c == 'e' || c == 'E'

/-- The exponent from its mark on; zero where there is none. -/
def writtenExponent? (cs : List Char) : Option Int :=
  match cs with
  | [] => some 0
  | _ :: rest =>
    let (negative, ds) := splitSign rest
    (digitsValue? ds).map (signed negative)

def floatOfText? (s : String) : Option Float :=
  let (negative, body) := splitSign s.toList
  let word := String.ofList (body.map Char.toLower)
  if word = "nan" then some (0 / 0)
  else if word = "inf" ∨ word = "infinity" then some (if negative then -1 / 0 else 1 / 0)
  else do
    let mantissa := body.takeWhile fun c => !isExponentMark c
    let exponent ← writtenExponent? (body.dropWhile fun c => !isExponentMark c)
    let fraction := (mantissa.dropWhile (· != '.')).drop 1
    let digits ← digitsValue? (mantissa.takeWhile (· != '.') ++ fraction)
    some (floatOfDecimal negative digits (exponent - fraction.length))

end Recast
