import Recast.Number.Reader

/-! # Dates and spans

Moments are counts of seconds with a part of a second, spans are counts of
nanoseconds; the calendar is computed from the count, by the proleptic Gregorian
rule.  Any minute may be read with a leap second `:60` at its end: it belongs to
the second before it, so it has a date and a place in the order of its own.

- `LocalTime` — a wall clock reading without a zone.
- `LocalTime.plus`, `LocalTime.since` — spans added to readings and taken between them.
- `OffsetTime` — an instant together with the offset it is read at.  Two are
  equal, and ordered, as instants.
- `civil`, `dayNumber` — a day count as year, month and day, and back.
-/

namespace Recast

/-! ## Days -/

structure CivilDate where
  year : Int
  month : Nat
  day : Nat

/-- Days from 1970-01-01.  Years are counted from March, so that the leap day comes last. -/
def dayNumber (date : CivilDate) : Int :=
  let y := if date.month ≤ 2 then date.year - 1 else date.year
  let era := y.fdiv 400
  let yearOfEra := y - era * 400
  let dayOfYear : Int := (153 * ((date.month + 9) % 12) + 2) / 5 + date.day - 1
  let dayOfEra := yearOfEra * 365 + yearOfEra.fdiv 4 - yearOfEra.fdiv 100 + dayOfYear
  era * 146097 + dayOfEra - 719468

def civil (days : Int) : CivilDate :=
  let z := days + 719468
  let era := z.fdiv 146097
  let dayOfEra := (z - era * 146097).toNat
  let yearOfEra := (dayOfEra - dayOfEra / 1460 + dayOfEra / 36524 - dayOfEra / 146096) / 365
  let dayOfYear := dayOfEra - (365 * yearOfEra + yearOfEra / 4 - yearOfEra / 100)
  let shifted := (5 * dayOfYear + 2) / 153
  let month := if shifted < 10 then shifted + 3 else shifted - 9
  let year := (yearOfEra : Int) + era * 400
  { year := if month ≤ 2 then year + 1 else year
    month := month
    day := dayOfYear - (153 * shifted + 2) / 5 + 1 }

def secondsPerDay : Int := 86400

def nanosPerSecond : Nat := 1000000000

/-! ## Texts of digits -/

def padded (width n : Nat) : String :=
  let ds := Nat.toDigits 10 n
  String.ofList (List.replicate (width - ds.length) '0' ++ ds)

/-- Four digits, more and a sign only outside the years 0 to 9999. -/
def yearText (y : Int) : String :=
  if y < 0 then "-" ++ padded 4 y.natAbs
  else if 9999 < y then "+" ++ padded 4 y.natAbs
  else padded 4 y.natAbs

/-- Nothing, or the fewest of 3, 6 and 9 digits that are exact. -/
def fractionOfSecond (nanos : Nat) : String :=
  if nanos = 0 then ""
  else if nanos % 1000000 = 0 then "." ++ padded 3 (nanos / 1000000)
  else if nanos % 1000 = 0 then "." ++ padded 6 (nanos / 1000)
  else "." ++ padded 9 nanos

/-! ## Spans -/

structure Span where
  nanos : Int
  deriving DecidableEq, Inhabited

namespace Span

def ofMillis (n : Int) : Span := ⟨n * 1000000⟩

/-- Whole milliseconds, toward zero. -/
def millis (s : Span) : Int := s.nanos.tdiv 1000000

/-- Whole seconds, toward zero. -/
def text (s : Span) : String := toString (s.nanos.tdiv nanosPerSecond) ++ "s"

end Span

/-! ## Wall clock readings -/

structure LocalTime where
  /-- Seconds from 1970-01-01T00:00:00. -/
  seconds : Int
  /-- Nanoseconds into the second.  After the first thousand million of them the reading lies
  in a leap second that follows it. -/
  nanos : Nat
  deriving DecidableEq, Inhabited

namespace LocalTime

/-- The reading that many nanoseconds after 1970-01-01T00:00:00, without leap seconds. -/
def ofNanos (n : Int) : LocalTime :=
  ⟨n.fdiv nanosPerSecond, (n.fmod nanosPerSecond).toNat⟩

def order (a b : LocalTime) : Ordering :=
  (compare a.seconds b.seconds).then (compare a.nanos b.nanos)

def inLeapSecond (t : LocalTime) : Bool := nanosPerSecond ≤ t.nanos

def days (t : LocalTime) : Int := t.seconds.fdiv secondsPerDay

/-- Seconds since midnight. -/
def clock (t : LocalTime) : Nat := (t.seconds.fmod secondsPerDay).toNat

def date (t : LocalTime) : CivilDate := civil t.days

def midnight (t : LocalTime) : LocalTime := ⟨t.days * secondsPerDay, 0⟩

/-- Date and time to the second. -/
def secondsText (t : LocalTime) : String :=
  let d := t.date
  let s := t.clock
  yearText d.year ++ "-" ++ padded 2 d.month ++ "-" ++ padded 2 d.day ++ "T" ++
    padded 2 (s / 3600) ++ ":" ++ padded 2 (s / 60 % 60) ++ ":" ++
    padded 2 (s % 60 + t.nanos / nanosPerSecond)

def text (t : LocalTime) : String :=
  t.secondsText ++ fractionOfSecond (t.nanos % nanosPerSecond)

/-- Midnight of the first of January of the year 1. -/
def first : LocalTime := ⟨dayNumber ⟨1, 1, 1⟩ * secondsPerDay, 0⟩

/-- A span added.  From inside a leap second the way forward leads through the rest of it and
the way back through what has passed of it; any other leap second takes no time. -/
def plus (t : LocalTime) (s : Span) : LocalTime :=
  let nanos := t.nanos + s.nanos
  let start := t.seconds * nanosPerSecond
  if t.inLeapSecond && nanosPerSecond ≤ nanos then
    if nanos < 2 * nanosPerSecond then ⟨t.seconds, nanos.toNat⟩
    else ofNanos (start + nanos - nanosPerSecond)
  else ofNanos (start + nanos)

/-- The span from `b` to `a`.  A leap second that one of the two lies in counts in full if the
clock of the other shows more. -/
def since (a b : LocalTime) : Span :=
  let leap : Int :=
    if b.inLeapSecond && b.clock < a.clock then 1
    else if a.inLeapSecond && a.clock < b.clock then -1
    else 0
  ⟨(a.seconds - b.seconds + leap) * nanosPerSecond + (a.nanos - b.nanos)⟩

end LocalTime

/-! ## Instants read at an offset -/

structure OffsetTime where
  /-- The instant as it is read at offset zero. -/
  instant : LocalTime
  /-- Seconds that the wall clock is ahead. -/
  offset : Int
  deriving Inhabited

namespace OffsetTime

def toLocal (t : OffsetTime) : LocalTime := ⟨t.instant.seconds + t.offset, t.instant.nanos⟩

/-- The instant at which a clock that is ahead by `offset` reads `t`. -/
def ofLocal (t : LocalTime) (offset : Int) : OffsetTime :=
  ⟨⟨t.seconds - offset, t.nanos⟩, offset⟩

def atZero (t : LocalTime) : OffsetTime := ⟨t, 0⟩

def offsetText (offset : Int) : String :=
  let minutes := offset.natAbs / 60
  (if offset < 0 then "-" else "+") ++ padded 2 (minutes / 60) ++ ":" ++ padded 2 (minutes % 60)

def text (t : OffsetTime) : String := t.toLocal.text ++ offsetText t.offset

end OffsetTime

/-! ## Reading -/

/-- `YYYY-MM-DD`. -/
def readDate? (cs : List Char) : Option Int :=
  match cs with
  | [y1, y2, y3, y4, '-', m1, m2, '-', d1, d2] => do
    let year ← digitsValue? [y1, y2, y3, y4]
    let month ← digitsValue? [m1, m2]
    let day ← digitsValue? [d1, d2]
    some (dayNumber ⟨year, month, day⟩)
  | _ => none

/-- The digits of a fraction of a second as nanoseconds. -/
def readFraction? (cs : List Char) : Option Nat :=
  match cs with
  | [] => some 0
  | '.' :: ds => digitsValue? ((ds ++ List.replicate 9 '0').take 9)
  | _ => none

/-- `HH:MM:SS`, with or without a fraction, in seconds and nanoseconds.  Second 60 is the leap
second after second 59. -/
def readClock? (cs : List Char) : Option (Nat × Nat) :=
  match cs with
  | h1 :: h2 :: ':' :: m1 :: m2 :: ':' :: s1 :: s2 :: rest => do
    let h ← digitsValue? [h1, h2]
    let m ← digitsValue? [m1, m2]
    let s ← digitsValue? [s1, s2]
    let fraction ← readFraction? rest
    let start := h * 3600 + m * 60
    some (if s = 60 then (start + 59, nanosPerSecond + fraction) else (start + s, fraction))
  | _ => none

def LocalTime.ofChars? (cs : List Char) : Option LocalTime := do
  let day ← readDate? (cs.take 10)
  let (seconds, nanos) ← readClock? (cs.drop 11)
  some ⟨day * secondsPerDay + seconds, nanos⟩

def LocalTime.ofText? (s : String) : Option LocalTime := LocalTime.ofChars? s.toList

/-- A wall clock reading followed by `Z` or an offset `±HH:MM`. -/
def OffsetTime.ofText? (s : String) : Option OffsetTime := do
  let cs := s.toList
  let here := cs.length - 6
  match cs.drop here with
  | [sign, h1, h2, ':', m1, m2] =>
    if sign = '+' ∨ sign = '-' then
      let t ← LocalTime.ofChars? (cs.take here)
      let h ← digitsValue? [h1, h2]
      let m ← digitsValue? [m1, m2]
      let seconds : Int := ((h * 60 + m) * 60 : Nat)
      let offset := if sign = '-' then -seconds else seconds
      some (.ofLocal t offset)
    else atUtc? cs
  | _ => atUtc? cs
where
  atUtc? (cs : List Char) : Option OffsetTime :=
    match cs.getLast? with
    | some 'Z' | some 'z' => (LocalTime.ofChars? cs.dropLast).map OffsetTime.atZero
    | _ => none

end Recast
