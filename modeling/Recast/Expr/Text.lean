import Recast.Expr.Basic

/-! # Texts of values and expressions

- `Value.text` — a value as it stands in an expression: strings and characters
  in quotes, which are not escaped.
- `Value.plain` — a value as text of its own, without quotes.
- `Registry.exprText` — an expression such as `s => (s.Child.Value == 10)`, on
  one line.
-/

namespace Recast

namespace Value

mutual

def text : Value → String
  | .null => "null"
  | .bool b => if b then "True" else "False"
  | .num n => n.text
  | .char c => "'" ++ String.singleton c ++ "'"
  | .str s => "\"" ++ s ++ "\""
  | .guid g => g.text
  | .dateTime t => t.secondsText
  | .dateTimeOffset t => t.text
  | .timeSpan s => s.text
  | .enum variant => variant
  | .record _ fields => "\x7b " ++ ", ".intercalate (fieldTexts fields) ++ " \x7d"
  | .list items => "[" ++ ", ".intercalate (texts items) ++ "]"
  | .lambda _ => "<lambda>"

def texts : List Value → List String
  | [] => []
  | v :: vs => text v :: texts vs

def fieldTexts : List (String × Value) → List String
  | [] => []
  | (name, v) :: fields => (name ++ " = " ++ text v) :: fieldTexts fields

end

/-- Text without quotes; null has none. -/
def plain : Value → String
  | .str s => s
  | .char c => String.singleton c
  | .enum variant => variant
  | .null => ""
  | v => v.text

end Value

namespace Registry

variable (r : Registry)

/-- The parameter list of a lambda: a single name stands alone. -/
def paramsText (ps : List Parameter) : String :=
  match ps with
  | [p] => p.name
  | ps => "(" ++ ", ".intercalate (ps.map (·.name)) ++ ")"

mutual

def exprText : Expr → String
  | .param p => p.name
  | .const v _ => v.text
  | .member target m => exprText target ++ "." ++ m.name
  | .lambda ps body _ => paramsText ps ++ " => " ++ exprText body
  | .unary .quote e _ => exprText e
  | .unary .negate e _ => "-" ++ exprText e
  | .unary .typeAs e t => "(" ++ exprText e ++ " As " ++ r.tyText t ++ ")"
  | .unary op e t =>
    op.name ++ "(" ++ exprText e ++ (if op.isConversion then ", " ++ r.tyText t ++ ")" else ")")
  | .binary .arrayIndex a i _ _ => exprText a ++ "[" ++ exprText i ++ "]"
  | .binary op a b _ _ => "(" ++ exprText a ++ " " ++ op.symbol ++ " " ++ exprText b ++ ")"
  | .cond c a b _ => "IIF(" ++ exprText c ++ ", " ++ exprText a ++ ", " ++ exprText b ++ ")"
  | .call (some target) m args =>
    exprText target ++ "." ++ m.name ++ "(" ++ ", ".intercalate (exprTexts args) ++ ")"
  | .call none m [] => m.declaring ++ "." ++ m.name ++ "()"
  -- the first argument stands as the receiver
  | .call none m (first :: rest) =>
    exprText first ++ "." ++ m.name ++ "(" ++ ", ".intercalate (exprTexts rest) ++ ")"
  | .new t inits =>
    let head := if r.isAnonymous t then "new \x7b" else "new " ++ r.tyText t ++ "() \x7b"
    let gap := if inits.isEmpty then "" else " "
    head ++ gap ++ ", ".intercalate (initTexts inits) ++ " \x7d"
  | .newArray t items =>
    "new " ++ r.tyText t ++ " \x7b" ++ ", ".intercalate (exprTexts items) ++ "\x7d"
  | .typeIs e tested _ => "(" ++ exprText e ++ " Is " ++ r.tyText tested ++ ")"
  | .invoke f args _ => "Invoke(" ++ ", ".intercalate (exprText f :: exprTexts args) ++ ")"
  | .default t => "default(" ++ r.tyText t ++ ")"

def exprTexts : List Expr → List String
  | [] => []
  | e :: es => exprText e :: exprTexts es

def initTexts : List (String × Expr) → List String
  | [] => []
  | (name, e) :: inits => (name ++ " = " ++ exprText e) :: initTexts inits

end

end Registry

end Recast
