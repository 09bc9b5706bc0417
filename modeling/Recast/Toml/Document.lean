import Recast.Toml.Value

/-! # Documents

A document is read into sections: the path in a header, and the entries below it.
The table that they make is put together in a second step, which fails where a key
is defined twice or where what looks like a moment is none.

- `Draft` — a value as it is written; `Draft.value?` what it stands for.
- `addUnder` — an entry under a dotted key.
- `ofSections?` — the value of a whole document.

A table whose first entry has the key `momentKey` stands for the moment that the
entry spells out, and nothing behind that entry is looked at.  Sections that are
left over in this way belong to the next item of the same array of tables; where
there is none they define a key a second time.
-/

namespace Recast

namespace Toml

/-! ## Drafts -/

/-- A value as it is written: its moments are not read yet, and a key may stand twice. -/
inductive Draft where
  /-- A value without parts. -/
  | plain (v : Value)
  | moment (text : List Char)
  | array (items : List Draft)
  /-- A table in braces, or one made by dotted keys. -/
  | table (dotted : Bool) (entries : List (String × Draft))

abbrev DraftEntries := List (String × Draft)

/-- The entries with the first of a key replaced, or with a new one at the end. -/
def put (key : String) (d : Draft) : DraftEntries → DraftEntries
  | [] => [(key, d)]
  | e :: entries => if e.1 = key then (key, d) :: entries else e :: put key d entries

/-- Adds an entry under a dotted key; none where a part of the key before the last names
something else than a table made by dotted keys. -/
def addUnder (d : Draft) : List String → DraftEntries → Option DraftEntries
  | [], _ => none
  | [key], entries => some (entries ++ [(key, d)])
  | key :: path, entries => do
    let inner ← match entries.lookup key with
      | none => some []
      | some (.table true inner) => some inner
      | some _ => none
    return put key (.table true (← addUnder d path inner)) entries

def momentKey : String := "$__toml_private_datetime"

/-- The moment that a text spells out. -/
def Draft.spelledMoment? : Draft → Option Value
  | .plain (.text s) => (Moment.ofChars? s.toList).map .moment
  | _ => none

/-- A table of entries of which no two have the same key. -/
def tableOf? (entries : List (String × Value)) : Option Value :=
  if (entries.map (·.1)).Nodup then some (.table entries) else none

mutual

/-- The value that a draft stands for. -/
def Draft.value? : Draft → Option Value
  | .plain v => some v
  | .moment text => (Moment.ofChars? text).map .moment
  | .array items => (itemValues? items).map .array
  | .table _ [] => some (.table [])
  | .table _ ((key, d) :: entries) =>
    if key = momentKey then d.spelledMoment?
    else do tableOf? ((key, ← d.value?) :: (← entryValues? entries))

def itemValues? : List Draft → Option (List Value)
  | [] => some []
  | d :: ds => do return (← d.value?) :: (← itemValues? ds)

def entryValues? : List (String × Draft) → Option (List (String × Value))
  | [] => some []
  | (key, d) :: entries => do return (key, ← d.value?) :: (← entryValues? entries)

end

/-! ## Sections -/

/-- The lines below one header, or those in front of the first one. -/
structure Section where
  path : List String
  /-- By a header in double brackets: a further item of an array of tables. -/
  isItem : Bool
  entries : DraftEntries

namespace Section

/-- The section belongs to the table itself and to none below it. -/
def isOwn (s : Section) : Bool := s.path.isEmpty

def isOwnItem (s : Section) : Bool := s.isOwn && s.isItem

/-- The section as seen from the table under `key`, if it belongs there. -/
def below? (key : String) (s : Section) : Option Section :=
  match s.path with
  | k :: path => if k = key then some { s with path } else none
  | [] => none

end Section

/-- An entry of a table: a line of its own section, or all the sections under one key. -/
inductive Part where
  | line (key : String) (d : Draft)
  | child (key : String) (ss : List Section)

def Part.key : Part → String
  | .line key _ => key
  | .child key _ => key

/-- The entries that sections make, in the order in which their keys come up. -/
def parts : List Section → List Part
  | [] => []
  | s :: ss =>
    match s.path with
    | [] => s.entries.map (fun e => .line e.1 e.2) ++ parts ss
    | key :: _ =>
      .child key ((s :: ss).filterMap (·.below? key)) ::
        parts (ss.filter fun t => (t.below? key).isNone)
termination_by ss => ss.length
decreasing_by
  · exact Nat.lt_succ_self _
  · simpa using Nat.lt_succ_of_le (List.length_filter_le _ ss)

/-- No more than one section of the table itself; that of an item stands in front. -/
def isOneTable (ss : List Section) : Bool :=
  ss.countP (·.isOwn) ≤ 1 && !(ss.drop 1).any (·.isOwnItem)

/-- The items of an array of tables, each with the sections up to the next one. -/
def splitItems (ss : List Section) : List (Section × List Section) :=
  (ss.foldr (fun s (behind, items) =>
    if s.isOwnItem then ([], (s, behind) :: items) else (s :: behind, items)) ([], [])).2

/-- Reads the items of an array of tables.  What one of them leaves over goes to the next. -/
def tableItems? (read : List Section → Option (Value × List Section)) :
    List Section → List (Section × List Section) → Option (List Value)
  | left, [] => if left.isEmpty then some [] else none
  | left, (item, ss) :: items => do
    let (v, left) ← read (item :: left ++ ss)
    return v :: (← tableItems? read left items)

/-- The value of the sections under one key. -/
def child? (read : List Section → Option (Value × List Section)) (ss : List Section) :
    Option Value :=
  if ss.head?.any (·.isOwnItem) then (tableItems? read [] (splitItems ss)).map .array
  else
    match read ss with
    | some (v, []) => some v
    | _ => none

/-- The value of a table, with the sections that are left over. -/
def table? : Nat → List Section → Option (Value × List Section)
  | 0, _ => none
  | n + 1, ss =>
    let entries := parts ss
    match entries.head? with
    | none => if isOneTable ss then some (.table [], []) else none
    | some first =>
      if first.key = momentKey then
        match first with
        | .line _ d => d.spelledMoment?.map (·, ss.drop 1)
        | .child _ _ => none
      else if isOneTable ss then do
        let entries ← entries.mapM fun
          | .line key d => d.value?.map (key, ·)
          | .child key ss => (child? (table? n) ss).map (key, ·)
        return (← tableOf? entries, [])
      else none

/-- The value of a document.  It is a table, if it does not spell out a moment. -/
def ofSections? (ss : List Section) : Option Value :=
  (table? (ss.foldl (fun n s => max n s.path.length) 0 + 1) ss).map (·.1)

end Toml

end Recast
