import Recast.Number.Binary64

/-! # The shortest decimal that reads back

A float is written with the fewest digits that identify it among all floats,
and of those the digits nearest to its value.

- `Dyadic.readsBack` — the decimals that round to the number: those within half
  a step of it, ends included when the significand is even.
- `Dyadic.shortest` — the first decimal grid, from one digit to seventeen, on
  which one of the two neighbours of the value reads back.
- `floatText` — the layout: positional from `10 ^ -5` up to `10 ^ 16`, with an
  exponent outside, which always carries its sign.
-/

namespace Recast

/-- `digits · 10 ^ exponent`. -/
structure Decimal where
  digits : Nat
  exponent : Int

/-- A ratio of naturals. -/
structure Ratio where
  num : Nat
  den : Nat

def Ratio.divTen (r : Ratio) (p : Int) : Ratio :=
  let power := Nat.pow 10 p.natAbs
  if p < 0 then ⟨r.num * power, r.den⟩ else ⟨r.num, r.den * power⟩

namespace Dyadic

/-- The number `4m`, in units of a quarter step, over powers of two and ten. -/
def ratio (d : Dyadic) (quarters : Nat) : Ratio :=
  let k := d.q - 2
  if k < 0 then ⟨quarters, 1 <<< k.natAbs⟩ else ⟨quarters <<< k.natAbs, 1⟩

/-- `digits · 10 ^ p` lies in the interval of reals that round to `d`. -/
def readsBack (d : Dyadic) (digits : Nat) (p : Int) : Bool :=
  let below := if d.m = 1 <<< 52 ∧ d.q > -1074 then 1 else 2
  let low := (d.ratio (4 * d.m - below)).divTen p
  let high := (d.ratio (4 * d.m + 2)).divTen p
  if d.m % 2 = 0 then low.num ≤ digits * low.den && digits * high.den ≤ high.num
  else low.num < digits * low.den && digits * high.den < high.num

/-- The decimal exponent of the leading digit of a positive ratio. -/
def leadingExponent (r : Ratio) : Int :=
  if r.den ≤ r.num then ((Nat.toDigits 10 (r.num / r.den)).length : Int) - 1
  else match (List.range 400).find? fun s => r.den ≤ r.num * Nat.pow 10 (s + 1) with
    | some s => -((s : Int) + 1)
    | none => -400

/-- The better of the two neighbours of the value on the grid of `10 ^ p`. -/
def onGrid (d : Dyadic) (p : Int) : Option Decimal :=
  let r := (d.ratio (4 * d.m)).divTen p
  let low := r.num / r.den
  match d.readsBack low p, d.readsBack (low + 1) p with
  | true, false => some ⟨low, p⟩
  | false, true => some ⟨low + 1, p⟩
  | false, false => none
  | true, true =>
    let rest := 2 * (r.num % r.den)
    if rest < r.den || (rest == r.den && low % 2 == 0) then some ⟨low, p⟩ else some ⟨low + 1, p⟩

def shortest (d : Dyadic) : Decimal :=
  let lead := leadingExponent (d.ratio (4 * d.m))
  match (List.range 17).findSome? fun (k : Nat) => d.onGrid (lead - k) with
  | some x => x
  | none => ⟨d.m, 0⟩

end Dyadic

def zeros (n : Nat) : List Char := List.replicate n '0'

/-- Digits without trailing zeros, and the exponent of the leading one. -/
def Decimal.normal (x : Decimal) : List Char × Int :=
  let ds := Nat.toDigits 10 x.digits
  ((ds.reverse.dropWhile (· == '0')).reverse, x.exponent + ds.length - 1)

/-- A fraction part, at least one digit. -/
def fractionText : List Char → List Char
  | [] => ['0']
  | ds => ds

def layout (ds : List Char) (lead : Int) : List Char :=
  if lead < -5 ∨ 16 ≤ lead then
    let mantissa := ds.take 1 ++ if ds.length ≤ 1 then [] else '.' :: ds.drop 1
    let sign := if lead < 0 then '-' else '+'
    mantissa ++ 'e' :: sign :: Nat.toDigits 10 lead.natAbs
  else if lead < 0 then '0' :: '.' :: zeros (lead.natAbs - 1) ++ ds
  else
    let whole := lead.toNat + 1
    (ds ++ zeros (whole - ds.length)).take whole ++ '.' :: fractionText (ds.drop whole)

/-- The text of a finite float. -/
def floatText (f : Float) : String :=
  let d := Dyadic.ofFloat f
  let body := if d.m = 0 then ['0', '.', '0'] else
    let (ds, lead) := d.shortest.normal
    layout ds lead
  String.ofList (if d.negative then '-' :: body else body)

end Recast
