import Recast.Number.Reader
import Recast.Toml.Document

/-! # Reading TOML

Each reader takes characters off the front and returns what it read with the
rest, or nothing if the text does not fit.  `Toml.parse?` reads a document section
by section; the fuel of the recursive readers is the length of the text.
-/

namespace Recast

namespace Toml

def isBlankChar (c : Char) : Bool := c == ' ' || c == '\t'

def isKeyChar (c : Char) : Bool := c.isAlphanum || c == '_' || c == '-'

def skipBlanks (cs : List Char) : List Char := cs.dropWhile isBlankChar

/-- The rest after a line end; the end of the text counts as one. -/
def lineEnd? : List Char → Option (List Char)
  | [] => some []
  | '\n' :: cs => some cs
  | '\r' :: '\n' :: cs => some cs
  | _ => none

/-- The rest after blanks, a comment and the line end. -/
def endOfLine? (cs : List Char) : Option (List Char) :=
  match skipBlanks cs with
  | '#' :: rest => lineEnd? (rest.dropWhile fun c => c == '\t' || 0x20 ≤ c.toNat)
  | rest => lineEnd? rest

/-- The rest after blanks, comments and line ends. -/
def skipLines : Nat → List Char → List Char
  | 0, cs => cs
  | n + 1, cs =>
    match skipBlanks cs with
    | [] => []
    | rest =>
      match endOfLine? rest with
      | some after => skipLines n after
      | none => rest

/-! ## Texts -/

def hexValue? (ds : List Char) : Option Nat :=
  ds.foldlM (fun n c =>
    if c.isDigit then some (n * 16 + (c.toNat - '0'.toNat))
    else if 'a' ≤ c ∧ c ≤ 'f' then some (n * 16 + (c.toNat - 'a'.toNat + 10))
    else if 'A' ≤ c ∧ c ≤ 'F' then some (n * 16 + (c.toNat - 'A'.toNat + 10))
    else none) 0

def codePoint? (ds : List Char) : Option Char := do
  let n ← hexValue? ds
  if n.isValidChar then some (Char.ofNat n) else none

/-- The character of an escape, after the backslash. -/
def escape? : List Char → Option (Char × List Char)
  | 'b' :: cs => some ('\x08', cs)
  | 't' :: cs => some ('\t', cs)
  | 'n' :: cs => some ('\n', cs)
  | 'f' :: cs => some ('\x0c', cs)
  | 'r' :: cs => some ('\r', cs)
  | '"' :: cs => some ('"', cs)
  | '\\' :: cs => some ('\\', cs)
  | 'u' :: cs => if cs.length < 4 then none else (codePoint? (cs.take 4)).map (·, cs.drop 4)
  | 'U' :: cs => if cs.length < 8 then none else (codePoint? (cs.take 8)).map (·, cs.drop 8)
  | _ => none

def isControl (c : Char) : Bool := (c.toNat < 0x20 && c != '\t') || c.toNat == 0x7f

/-- The rest of a text in double quotes. -/
def basicText : Nat → List Char → List Char → Option (String × List Char)
  | 0, _, _ => none
  | _, _, [] => none
  | n + 1, done, c :: cs =>
    if c = '"' then some (String.ofList done.reverse, cs)
    else if c = '\\' then do
      let (e, rest) ← escape? cs
      basicText n (e :: done) rest
    else if isControl c then none
    else basicText n (c :: done) cs

/-- The rest of a text in single quotes. -/
def literalText : List Char → List Char → Option (String × List Char)
  | _, [] => none
  | done, c :: cs =>
    if c = '\'' then some (String.ofList done.reverse, cs)
    else if isControl c then none
    else literalText (c :: done) cs

/-- Drops the line end that may follow the opening quotes. -/
def dropFirstLineEnd : List Char → List Char
  | '\n' :: cs => cs
  | '\r' :: '\n' :: cs => cs
  | cs => cs

/-- Drops blanks and line ends. -/
def skipSpace : List Char → List Char
  | '\r' :: '\n' :: cs => skipSpace cs
  | c :: cs => if isBlankChar c || c == '\n' then skipSpace cs else c :: cs
  | [] => []

/-- The rest after a backslash at the end of a line, at the next character that counts. -/
def foldedLine? (cs : List Char) : Option (List Char) :=
  match skipBlanks cs with
  | '\n' :: rest => some (skipSpace rest)
  | '\r' :: '\n' :: rest => some (skipSpace rest)
  | _ => none

/-- The rest of a text of several lines, up to three quotes.  Of more quotes the first two
at most belong to the text. -/
def longText (quote : Char) : Nat → List Char → List Char → Option (String × List Char)
  | 0, _, _ => none
  | _, _, [] => none
  | n + 1, done, c :: cs =>
    if c = quote ∧ cs.take 2 = [quote, quote] then
      let more := ((cs.drop 2).take 2).takeWhile (· == quote)
      some (String.ofList (done.reverse ++ more), cs.drop (2 + more.length))
    else if c = '\\' ∧ quote = '"' then
      match escape? cs with
      | some (e, rest) => longText quote n (e :: done) rest
      | none => (foldedLine? cs).bind (longText quote n done)
    else if c = '\r' ∧ cs.head? = some '\n' then longText quote n done cs
    else if isControl c ∧ c ≠ '\n' then none
    else longText quote n (c :: done) cs

def textValue? (cs : List Char) : Option (String × List Char) :=
  match cs with
  | '"' :: '"' :: '"' :: rest => longText '"' (rest.length + 1) [] (dropFirstLineEnd rest)
  | '\'' :: '\'' :: '\'' :: rest => longText '\'' (rest.length + 1) [] (dropFirstLineEnd rest)
  | '"' :: rest => basicText (rest.length + 1) [] rest
  | '\'' :: rest => literalText [] rest
  | _ => none

/-! ## Keys -/

def simpleKey? (cs : List Char) : Option (String × List Char) :=
  match cs with
  | '"' :: rest => basicText (rest.length + 1) [] rest
  | '\'' :: rest => literalText [] rest
  | _ =>
    let name := cs.takeWhile isKeyChar
    if name.isEmpty then none else some (String.ofList name, cs.dropWhile isKeyChar)

/-- A key of parts with points between them. -/
def dottedKey? : Nat → List Char → Option (List String × List Char)
  | 0, _ => none
  | n + 1, cs => do
    let (key, rest) ← simpleKey? (skipBlanks cs)
    match skipBlanks rest with
    | '.' :: more =>
      let (keys, rest) ← dottedKey? n more
      some (key :: keys, rest)
    | rest => some ([key], rest)

/-! ## Numbers and moments

Both begin with a word of key characters, and points, colons and plus signs may
join further words to it.
-/

/-- A run of key characters, at least one. -/
def word? (cs : List Char) : Option (List Char × List Char) :=
  let w := cs.takeWhile isKeyChar
  if w.isEmpty then none else some (w, cs.dropWhile isKeyChar)

/-- Digits of a base with single underscores between them, and what follows in the word.
A zero stands in front of other digits only where zeros are `padded`. -/
def digitRun? (base : Nat) (padded : Bool) (w : List Char) : Option (List Char × List Char) :=
  let isDigit (c : Char) := (hexValue? [c]).any (· < base)
  let inRun (c : Char) := isDigit c || c == '_'
  let groups := (w.takeWhile inRun).splitOn '_'
  let ds := groups.flatten
  if groups.any List.isEmpty || (!padded && ds.head? == some '0' && 1 < ds.length) then none
  else some (ds, w.dropWhile inRun)

def valueOfDigits (base : Nat) (ds : List Char) : Nat :=
  ds.foldl (fun n c => n * base + (hexValue? [c]).getD 0) 0

def minusSign (w : List Char) : Bool × List Char :=
  match w with
  | '-' :: w => (true, w)
  | _ => (false, w)

def ofDigits? (base : Nat) (negative : Bool) (run : Option (List Char × List Char)) :
    Option Value :=
  match run with
  | some (ds, []) =>
    let n := signed negative (valueOfDigits base ds)
    if inInt64 n then some (.integer n) else none
  | _ => none

def integer? (w : List Char) : Option Value :=
  match w with
  | '0' :: 'x' :: ds => ofDigits? 16 false (digitRun? 16 true ds)
  | '0' :: 'o' :: ds => ofDigits? 8 false (digitRun? 8 true ds)
  | '0' :: 'b' :: ds => ofDigits? 2 false (digitRun? 2 true ds)
  | _ =>
    let (negative, ds) := minusSign w
    ofDigits? 10 negative (digitRun? 10 false ds)

/-- The exponent in the rest of a word, zero where the word is at its end.  The sign of a positive
exponent ends the word, and the digits are the next one. -/
def exponent? (w cs : List Char) : Option (Int × List Char) := do
  match w with
  | [] => some (0, cs)
  | mark :: w =>
    if isExponentMark mark then
      let (negative, ds, cs) ← match w, cs with
        | [], '+' :: cs => (word? cs).map fun (w, cs) => (false, w, cs)
        | _, _ => let (negative, w) := minusSign w; some (negative, w, cs)
      match ← digitRun? 10 true ds with
      | (ds, []) => some (signed negative (valueOfDigits 10 ds), cs)
      | _ => none
    else none

/-- The fraction in the word after a point. -/
def fraction? (w cs : List Char) : Option (List Char × List Char × List Char) := do
  match w, cs with
  | [], '.' :: cs =>
    let (w, cs) ← word? cs
    let (ds, w) ← digitRun? 10 true w
    some (ds, w, cs)
  | w, cs => some ([], w, cs)

def float? (w cs : List Char) : Option (Value × List Char) := do
  let (negative, w) := minusSign w
  let (whole, w) ← digitRun? 10 false w
  let (fraction, w, cs) ← fraction? w cs
  let (exponent, cs) ← exponent? w cs
  let digits := valueOfDigits 10 (whole ++ fraction)
  let f := floatOfDecimal negative digits (exponent - fraction.length)
  if f.isFinite then some (.float f, cs) else none

def number? (w cs : List Char) : Option (Value × List Char) :=
  let isBased := match w with
    | '0' :: c :: _ => c == 'x' || c == 'o' || c == 'b'
    | _ => false
  if isBased then (integer? w).map (·, cs)
  else if w.any isExponentMark || cs.head? == some '.' then float? w cs
  else
    let (negative, name) := minusSign w
    if name = ['i', 'n', 'f'] then some (.float (if negative then -1 / 0 else 1 / 0), cs)
    else if name = ['n', 'a', 'n'] then some (.notANumber negative, cs)
    else (integer? w).map (·, cs)

/-- One more word behind a mark, if the mark is there. -/
def joined? (mark : Char) (w cs : List Char) : Option (List Char × List Char) :=
  match cs with
  | c :: rest =>
    if c = mark then (word? rest).map fun (v, rest) => (w ++ mark :: v, rest) else some (w, cs)
  | [] => some (w, cs)

/-- The words of a time behind the one that ends in its hour, if they are there. -/
def clockWords? (w cs : List Char) : Option (List Char × List Char) := do
  if cs.head? = some ':' then
    let (w, cs) ← joined? ':' w cs
    if cs.head? = some ':' then
      let (w, cs) ← joined? ':' w cs
      let (w, cs) ← joined? '.' w cs
      let (w, cs) ← joined? '+' w cs
      joined? ':' w cs
    else none
  else some (w, cs)

/-- The hour that a single space sets apart from the date. -/
def withHour (w cs : List Char) : List Char × List Char :=
  match cs with
  | ' ' :: rest => ((word? rest).map fun (v, rest) => (w ++ ' ' :: v, rest)).getD (w, cs)
  | _ => (w, cs)

/-- The words of a moment that begins with the word `w`. -/
def moment? (w cs : List Char) : Option (Draft × List Char) :=
  let (w, cs) := withHour w cs
  (clockWords? w cs).map fun (w, cs) => (.moment w, cs)

/-- Letters or signs inside a word that only a moment has. -/
def looksLikeMoment (w cs : List Char) : Bool :=
  let hasMark := w.zip (w.drop 1) |>.any fun (c, d) => isExponentMark c && d == '-'
  w.any (fun c => c == 'T' || c == 't') || ((w.drop 1).contains '-' && !hasMark) ||
    cs.head? == some ':'

/-- A value that begins with a word or a plus sign. -/
def wordValue? (cs : List Char) : Option (Draft × List Char) := do
  let plain (r : Value × List Char) : Draft × List Char := (.plain r.1, r.2)
  match cs with
  | '+' :: cs =>
    let (w, cs) ← word? cs
    (number? w cs).map plain
  | cs =>
    let (w, cs) ← word? cs
    if w = "true".toList then some (.plain (.boolean true), cs)
    else if w = "false".toList then some (.plain (.boolean false), cs)
    else if w = "inf".toList ∨ w = "nan".toList then (number? w cs).map plain
    else if !(w.head?.any fun c => c == '-' || c.isDigit) then none
    else if looksLikeMoment w cs then moment? w cs
    else (number? w cs).map plain

/-! ## Values -/

mutual

def draft? : Nat → List Char → Option (Draft × List Char)
  | 0, _ => none
  | n + 1, cs =>
    match cs with
    | '[' :: rest => (items? n rest).map fun (ds, rest) => (.array ds, rest)
    | '\x7b' :: rest =>
      match skipBlanks rest with
      | '\x7d' :: rest => some (.table false [], rest)
      | rest => (inlineEntries? n [] rest).map fun (entries, rest) => (.table false entries, rest)
    | '"' :: _ => (textValue? cs).map fun (s, rest) => (.plain (.text s), rest)
    | '\'' :: _ => (textValue? cs).map fun (s, rest) => (.plain (.text s), rest)
    | _ => wordValue? cs

/-- The items of an array, which may stand on several lines, and its end. -/
def items? : Nat → List Char → Option (List Draft × List Char)
  | 0, _ => none
  | n + 1, cs =>
    match skipLines (cs.length + 1) cs with
    | ']' :: rest => some ([], rest)
    | cs => do
      let (d, rest) ← draft? n cs
      match skipLines (rest.length + 1) rest with
      | ',' :: rest => (items? n rest).map fun (ds, rest) => (d :: ds, rest)
      | ']' :: rest => some ([d], rest)
      | _ => none

/-- The entries of an inline table and its end. -/
def inlineEntries? : Nat → DraftEntries → List Char → Option (DraftEntries × List Char)
  | 0, _, _ => none
  | n + 1, entries, cs => do
    let (path, rest) ← dottedKey? (cs.length + 1) cs
    match skipBlanks rest with
    | '=' :: rest =>
      let (d, rest) ← draft? n (skipBlanks rest)
      let entries ← addUnder d path entries
      match skipBlanks rest with
      | ',' :: rest => inlineEntries? n entries (skipBlanks rest)
      | '\x7d' :: rest => some (entries, rest)
      | _ => none
    | _ => none

end

/-! ## Documents -/

/-- A header in brackets, after the opening one: its path, and whether it is that of an item. -/
def header? (cs : List Char) : Option (List String × Bool × List Char) := do
  match cs with
  | '[' :: cs =>
    let (path, rest) ← dottedKey? (cs.length + 1) cs
    match rest with
    | ']' :: ']' :: rest => some (path, true, rest)
    | _ => none
  | cs =>
    let (path, rest) ← dottedKey? (cs.length + 1) cs
    match rest with
    | ']' :: rest => some (path, false, rest)
    | _ => none

def assignment? (cs : List Char) : Option (List String × Draft × List Char) := do
  let (path, rest) ← dottedKey? (cs.length + 1) cs
  match skipBlanks rest with
  | '=' :: rest =>
    let (d, rest) ← draft? (rest.length + 1) (skipBlanks rest)
    some (path, d, rest)
  | _ => none

/-- The entries in front of the next header, and the rest after its opening bracket; no rest at
the end of the text. -/
def sectionLines? :
    Nat → DraftEntries → List Char → Option (DraftEntries × Option (List Char))
  | 0, _, _ => none
  | n + 1, entries, cs =>
    match skipLines (cs.length + 1) cs with
    | [] => some (entries, none)
    | '[' :: rest => some (entries, some rest)
    | cs => do
      let (path, d, rest) ← assignment? cs
      sectionLines? n (← addUnder d path entries) (← endOfLine? rest)

/-- The sections of a text that begins behind the header of the first one. -/
def sections? : Nat → List String → Bool → List Char → Option (List Section)
  | 0, _, _, _ => none
  | n + 1, path, isItem, cs => do
    let (entries, rest) ← sectionLines? (cs.length + 1) [] cs
    match rest with
    | none => some [⟨path, isItem, entries⟩]
    | some rest =>
      let (next, nextIsItem, rest) ← header? rest
      return ⟨path, isItem, entries⟩ :: (← sections? n next nextIsItem (← endOfLine? rest))

/-- The value of a document, which a byte order mark may precede; none if the text is no
document. -/
def parse? (s : String) : Option Value :=
  let cs := match s.toList with
    | '\ufeff' :: cs => cs
    | cs => cs
  (sections? (cs.length + 1) [] false cs).bind ofSections?

end Toml

end Recast
