import Recast.Calendar

/-! # Moments in a document

A moment is a date, a time of day or both, and both may have an offset.  It is
kept as it is written; only the number of digits of a fraction and the letters
are made uniform.

- `Moment.ofChars?` — reads a moment that takes up the whole text.
- `Moment.text` — the uniform text.
-/

namespace Recast

namespace Toml

structure MomentDate where
  year : Nat
  month : Nat
  day : Nat
  deriving DecidableEq

structure MomentClock where
  hour : Nat
  minute : Nat
  second : Nat
  nanos : Nat
  deriving DecidableEq

inductive MomentOffset where
  | zero
  | hours (negative : Bool) (hour minute : Nat)
  deriving DecidableEq

structure Moment where
  date : Option MomentDate
  clock : Option MomentClock
  offset : Option MomentOffset
  deriving DecidableEq

namespace Moment

/-! ## Reading -/

/-- A date, which a time may follow. -/
def date? (cs : List Char) : Option (MomentDate × List Char) := do
  match cs with
  | y1 :: y2 :: y3 :: y4 :: '-' :: m1 :: m2 :: '-' :: d1 :: d2 :: rest =>
    let date : MomentDate :=
      ⟨← digitsValue? [y1, y2, y3, y4], ← digitsValue? [m1, m2], ← digitsValue? [d1, d2]⟩
    if 1 ≤ date.month ∧ date.month ≤ 12 ∧ 1 ≤ date.day ∧ date.day ≤ 31 then some (date, rest)
    else none
  | _ => none

/-- The nanoseconds of a fraction, if there is one; digits after the ninth do not count. -/
def fraction? (cs : List Char) : Option (Nat × List Char) :=
  match cs with
  | '.' :: rest =>
    let ds := rest.takeWhile Char.isDigit
    (digitsValue? ds).bind fun _ =>
      (digitsValue? ((ds ++ List.replicate 9 '0').take 9)).map (·, rest.dropWhile Char.isDigit)
  | _ => some (0, cs)

def clock? (cs : List Char) : Option (MomentClock × List Char) := do
  match cs with
  | h1 :: h2 :: ':' :: m1 :: m2 :: ':' :: s1 :: s2 :: rest =>
    let (nanos, rest) ← fraction? rest
    let clock : MomentClock :=
      ⟨← digitsValue? [h1, h2], ← digitsValue? [m1, m2], ← digitsValue? [s1, s2], nanos⟩
    if clock.hour ≤ 24 ∧ clock.minute ≤ 59 ∧ clock.second ≤ 59 then some (clock, rest) else none
  | _ => none

/-- An offset that takes up the whole text. -/
def offset? (cs : List Char) : Option (Option MomentOffset) := do
  match cs with
  | [] => some none
  | ['Z'] | ['z'] => some (some .zero)
  | [sign, h1, h2, ':', m1, m2] =>
    if sign = '+' ∨ sign = '-' then
      some (some (.hours (sign == '-') (← digitsValue? [h1, h2]) (← digitsValue? [m1, m2])))
    else none
  | _ => none

/-- What follows a date: nothing, or a time and an offset. -/
def afterDate? (date : MomentDate) (cs : List Char) : Option Moment := do
  match cs with
  | [] => some ⟨some date, none, none⟩
  | c :: cs =>
    if c = 'T' ∨ c = 't' ∨ c = ' ' then
      let (clock, rest) ← clock? cs
      some ⟨some date, some clock, ← offset? rest⟩
    else none

def ofChars? (cs : List Char) : Option Moment :=
  if cs[2]? = some ':' then
    match clock? cs with
    | some (clock, []) => some ⟨none, some clock, none⟩
    | _ => none
  else (date? cs).bind fun (date, rest) => afterDate? date rest

/-! ## Writing -/

def fractionText (nanos : Nat) : String :=
  if nanos = 0 then ""
  else "." ++ String.ofList ((padded 9 nanos).toList.reverse.dropWhile (· == '0')).reverse

def dateText (d : MomentDate) : String :=
  padded 4 d.year ++ "-" ++ padded 2 d.month ++ "-" ++ padded 2 d.day

def clockText (c : MomentClock) : String :=
  padded 2 c.hour ++ ":" ++ padded 2 c.minute ++ ":" ++ padded 2 c.second ++ fractionText c.nanos

/-- An offset of no whole hour has no minus sign. -/
def offsetText : MomentOffset → String
  | .zero => "Z"
  | .hours negative hour minute =>
    (if negative && hour != 0 then "-" else "+") ++ padded 2 hour ++ ":" ++ padded 2 minute

def text (m : Moment) : String :=
  (m.date.map dateText).getD "" ++
    (if m.date.isSome && m.clock.isSome then "T" else "") ++
    (m.clock.map clockText).getD "" ++ (m.offset.map offsetText).getD ""

end Moment

end Toml

end Recast
