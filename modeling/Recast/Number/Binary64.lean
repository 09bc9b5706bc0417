/-! # Floats as exact dyadic numbers

A finite float is `m · 2 ^ q` with a sign, read off its bits.  On that view
truncation, remainder and order are integer arithmetic.

- `Dyadic.ofFloat`, `Dyadic.toFloat` — between the two views; `toFloat` is
  meant for numbers that a float holds exactly.
- `trunc` — the integer part, toward zero.
- `order` — as numbers, exactly; the two zeros are equal.
- `remainder` — what truncated division leaves; exact, with the sign of the
  dividend.
-/

namespace Recast

/-- `±m · 2 ^ q`. -/
structure Dyadic where
  negative : Bool
  m : Nat
  q : Int

namespace Dyadic

/-- The value of a finite float. -/
def ofFloat (f : Float) : Dyadic :=
  let bits := f.toBits.toNat
  let exponent : Nat := (bits >>> 52) % (1 <<< 11)
  let fraction := bits % (1 <<< 52)
  let negative := bits >>> 63 == 1
  if exponent = 0 then ⟨negative, fraction, -1074⟩
  else ⟨negative, fraction + (1 <<< 52), (exponent : Int) - 1075⟩

/-- `m · 2 ^ k`, rounded down. -/
def shift (m : Nat) (k : Int) : Nat :=
  if k < 0 then m >>> k.natAbs else m <<< k.natAbs

/-- The float with this value, if the value is a finite float. -/
def toFloat (d : Dyadic) : Float :=
  let sign := if d.negative then 1 <<< 63 else 0
  if d.m = 0 then Float.ofBits (UInt64.ofNat sign)
  else
    let lead := (d.m.log2 : Int) + d.q
    if lead < -1022 then Float.ofBits (UInt64.ofNat (sign + shift d.m (d.q + 1074)))
    else
      let mantissa := shift d.m (52 - (d.m.log2 : Int))
      Float.ofBits (UInt64.ofNat (sign + ((lead + 1023).toNat <<< 52) + (mantissa - (1 <<< 52))))

/-- The value in units of `2 ^ q`, rounded toward zero. -/
def scaled (d : Dyadic) (q : Int) : Int :=
  let n : Int := shift d.m (d.q - q)
  if d.negative then -n else n

def trunc (d : Dyadic) : Int := d.scaled 0

/-- The order of the values, in units that both are multiples of. -/
def order (x y : Dyadic) : Ordering :=
  let q := min x.q y.q
  compare (x.scaled q) (y.scaled q)

end Dyadic

/-- The integer part of a finite float. -/
def truncate (f : Float) : Int := (Dyadic.ofFloat f).trunc

/-- The exact remainder of truncated division; not a number when the divisor is zero. -/
def remainder (a b : Float) : Float :=
  let x := Dyadic.ofFloat a
  let y := Dyadic.ofFloat b
  if y.m = 0 then 0.0 / 0.0
  else
    let q := min x.q y.q
    let r := Dyadic.shift x.m (x.q - q) % Dyadic.shift y.m (y.q - q)
    Dyadic.toFloat ⟨x.negative, r, q⟩

/-- The float nearest to an integer of at most 64 bits, ties to even. -/
def floatOfInt (n : Int) : Float :=
  if n < 0 then -(UInt64.ofNat n.natAbs).toFloat else (UInt64.ofNat n.natAbs).toFloat

end Recast
