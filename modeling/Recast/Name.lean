import Recast.Text.Classes

/-! # Member names

Members are matched by name, so names are read as sequences of words
(`OrderCustomerName` is `Order`, `Customer`, `Name`), and a name that matches
nothing is answered with the nearest ones.

- `wordsOf` / `words` — a name cut at its inner capitals; nothing is lost.
- `isPascal` — the names that are read as words at all.
- `distance` — edit distance without regard to ASCII case, one row of the
  table at a time.
- `suggest` — the nearest candidates, nearest first.
-/

namespace Recast.Name

open Recast.Text

/-! ## Words -/

/-- A word starts at `cur`: a capital after a small letter or digit, or the
last capital of a run when a small letter follows it. -/
def startsWord (prev cur : Char) (next : Option Char) : Bool :=
  isUppercase cur &&
    (isLowercase prev || prev.isDigit || (isUppercase prev && next.any isLowercase))

def wordsOf : List Char → List (List Char)
  | [] => []
  | [c] => [[c]]
  | c :: d :: rest =>
    match wordsOf (d :: rest) with
    | [] => [[c]]
    | w :: ws => if startsWord c d rest.head? then [c] :: w :: ws else (c :: w) :: ws

def words (name : String) : List String :=
  (wordsOf name.toList).map String.ofList

/-- A capital followed by letters, digits and underscores. -/
def isPascal (name : String) : Bool :=
  match name.toList with
  | [] => false
  | c :: rest => isCapital c && rest.all fun d => isLetter d || isDecimalDigit d || d == '_'

/-! ## Distance -/

/-- The rest of a row, given the entry to the left and the one diagonally above. -/
def rowFrom (a : Char) (left diagonal : Nat) : List Char → List Nat → List Nat
  | b :: bs, above :: row =>
    let entry := min (min (diagonal + if a = b then 0 else 1) (left + 1)) (above + 1)
    entry :: rowFrom a entry above bs row
  | _, _ => []

def nextRow (bs : List Char) (row : List Nat) (a : Char) : List Nat :=
  match row with
  | [] => []
  | top :: rest => (top + 1) :: rowFrom a (top + 1) top bs rest

/-- Edit distance of two words: the last entry of the last row. -/
def distanceOf (as bs : List Char) : Nat :=
  (as.foldl (nextRow bs) (List.range (bs.length + 1))).getLastD 0

def distance (a b : String) : Nat :=
  distanceOf (a.toList.map Char.toLower) (b.toList.map Char.toLower)

/-! ## Suggestions -/

/-- Order by distance, then by name. -/
def nearer (x y : Nat × String) : Bool :=
  x.1 < y.1 || (x.1 == y.1 && !(y.2 < x.2 : Bool))

/-- At most `limit` of the candidates within `reach` edits of `name`, nearest first. -/
def suggest (name : String) (candidates : List String) (limit reach : Nat) : List String :=
  let near := (candidates.filter (· != name)).filterMap fun c =>
    let d := distance name c
    if d ≤ reach then some (d, c) else none
  ((near.mergeSort nearer).take limit).map (·.2)

end Recast.Name
