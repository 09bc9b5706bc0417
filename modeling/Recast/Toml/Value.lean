import Recast.Number.Shortest
import Recast.Toml.Moment

/-! # Values of a document and their text

Texts stand in quotes with escapes, floats in full without an exponent.  In a
table plain entries come first, then arrays with tables among their items, then
tables.  A table has a header in front of its first plain entry, and an empty one
has nothing else.  The first header inside an item of an array of tables brings
that of the item along.

- `Value.write` — the text of a value at a place inside others.
- `Value.display` — the text of a value that stands alone.

An array opens its bracket in front of a plain first item and closes it unless its
first item is a table.  So an array that mixes tables with other items has a text
that does not read back.
-/

namespace Recast

namespace Toml

inductive Value where
  | text (s : String)
  | integer (n : Int)
  | float (f : Float)
  | notANumber (negative : Bool)
  | boolean (b : Bool)
  | moment (m : Moment)
  | array (items : List Value)
  | table (entries : List (String × Value))
  deriving Inhabited

/-! ## Single values -/

def hexDigits (width n : Nat) : List Char :=
  let ds := (Nat.toDigits 16 n).map Char.toUpper
  List.replicate (width - ds.length) '0' ++ ds

def escaped (c : Char) : List Char :=
  if c = '\x08' then ['\\', 'b']
  else if c = '\t' then ['\\', 't']
  else if c = '\n' then ['\\', 'n']
  else if c = '\x0c' then ['\\', 'f']
  else if c = '\r' then ['\\', 'r']
  else if c = '"' ∨ c = '\\' then ['\\', c]
  else if c.toNat < 0x20 ∨ c.toNat = 0x7f then '\\' :: 'u' :: hexDigits 4 c.toNat
  else [c]

def quoted (s : String) : String :=
  String.ofList ('"' :: s.toList.flatMap escaped ++ ['"'])

/-- The shortest decimal, written in full with a fraction. -/
def fullDecimal (f : Float) : String :=
  if f.isInf then if f < 0 then "-inf" else "inf"
  else
    let d := Dyadic.ofFloat f
    let body := if d.m = 0 then ['0', '.', '0'] else
      let (ds, lead) := d.shortest.normal
      if lead < 0 then '0' :: '.' :: zeros (lead.natAbs - 1) ++ ds
      else
        let whole := lead.toNat + 1
        (ds ++ zeros (whole - ds.length)).take whole ++ '.' :: fractionText (ds.drop whole)
    String.ofList (if d.negative then '-' :: body else body)

def isBareKey (s : String) : Bool :=
  !s.isEmpty && s.all fun c => c.isAlphanum || c == '_' || c == '-'

def keyText (s : String) : String := if isBareKey s then s else quoted s

/-! ## Places -/

/-- A step from a value to the table or array that holds it; `first` where nothing is
written there before the value. -/
inductive Place where
  | entry (key : String) (first : Bool)
  | item (first : Bool)

def Place.key? : Place → Option String
  | .entry key _ => some key
  | .item _ => none

/-- The keys that lead to a place, which is given from the inside out. -/
def pathText (places : List Place) : String :=
  ".".intercalate (places.reverse.filterMap fun p => p.key?.map keyText)

/-- The header of the item of an array of tables at the head of the places, or of the nearest
around it of which nothing is written yet. -/
def itemHeader : List Place → String
  | .item first :: .entry key unbegun :: places =>
    (if first && unbegun then itemHeader places else "\n") ++
      "[[" ++ pathText (.entry key unbegun :: places) ++ "]]\n"
  | .entry _ true :: places => itemHeader places
  | _ => ""

/-- The header of a table. -/
def header : List Place → String
  | [] => ""
  | .entry key first :: places =>
    (if first then itemHeader places else "\n") ++
      "[" ++ pathText (.entry key first :: places) ++ "]\n"
  | .item first :: .entry key unbegun :: places =>
    itemHeader (.item first :: .entry key unbegun :: places)
  | .item first :: places => (if first then "" else "\n") ++ "[[" ++ pathText places ++ "]]\n"

/-- What stands in front of a plain value. -/
def opening : List Place → String
  | [] => ""
  | .entry key first :: places => (if first then header places else "") ++ keyText key ++ " = "
  | .item first :: places => if first then opening places ++ "[" else ", "

/-- What stands behind a plain value: an entry is a line. -/
def ending : List Place → String
  | .entry _ _ :: _ => "\n"
  | _ => ""

/-! ## Writing -/

namespace Value

def isTable : Value → Bool
  | table _ => true
  | _ => false

/-- The entry of a table; none in any other value. -/
def entry? (key : String) : Value → Option Value
  | table entries => entries.lookup key
  | _ => none

/-- When a table writes an entry: plain ones first, then arrays of tables, then tables. -/
def rank : Value → Nat
  | table _ => 2
  | array items => if items.any isTable then 1 else 0
  | _ => 0

mutual

/-- The text of a value; the places around it are given from the inside out. -/
def write (places : List Place) : Value → String
  | text s => opening places ++ quoted s ++ ending places
  | integer n => opening places ++ toString n ++ ending places
  | float f => opening places ++ fullDecimal f ++ ending places
  | notANumber negative => opening places ++ (if negative then "-nan" else "nan") ++ ending places
  | boolean b => opening places ++ (if b then "true" else "false") ++ ending places
  | moment m => opening places ++ m.text ++ ending places
  | array [] => opening places ++ "[]" ++ ending places
  | array (v :: vs) =>
    v.write (.item true :: places) ++ writeItems places vs ++
      (if v.isTable then "" else "]" ++ ending places)
  | table entries =>
    (if entries.isEmpty then header places else "") ++
      writeRank places 0 true entries ++
      writeRank places 1 (entries.all fun e => 1 ≤ e.2.rank) entries ++
      writeRank places 2 (entries.all fun e => 2 ≤ e.2.rank) entries

/-- The items of an array behind its first. -/
def writeItems (places : List Place) : List Value → String
  | [] => ""
  | v :: vs => v.write (.item false :: places) ++ writeItems places vs

/-- The entries of one rank. -/
def writeRank (places : List Place) (rank : Nat) (first : Bool) : List (String × Value) → String
  | [] => ""
  | (key, v) :: entries =>
    if v.rank = rank then
      v.write (.entry key first :: places) ++ writeRank places rank false entries
    else writeRank places rank first entries

end

def display (v : Value) : String := v.write []

end Value

end Toml

end Recast
