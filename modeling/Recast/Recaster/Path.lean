import Recast.Recaster.Table

/-! # Member paths on the data side

A path of model members is followed on the data side, step by step: plain data
members where the mappings name them, custom lambdas where they do not.

- `DataStep` — one step, applied to the expression reached so far.
- `Configuration.dataPath` — the steps for a path.  Types that correspond
  along generic or literal members are registered.
-/

namespace Recast

inductive DataStep where
  /-- Plain member accesses. -/
  | members (ms : List Member)
  /-- A lambda whose parameter stands for the expression reached so far. -/
  | custom (lambda : Expr)

namespace DataStep

def isCustom : DataStep → Bool
  | .custom _ => true
  | .members _ => false

/-- The steps with plain members after them; plain members next to each other are one step. -/
def appendMembers (steps : List DataStep) (ms : List Member) : List DataStep :=
  if ms.isEmpty then steps
  else match steps.getLast? with
    | some (.members before) => steps.dropLast ++ [.members (before ++ ms)]
    | _ => steps ++ [.members ms]

end DataStep

namespace Registry

/-- The members of a path from a type. -/
def requireMembers (r : Registry) (t : Ty) : List String → Checked (List Member)
  | [] => .ok []
  | name :: names => do
    let m ← r.requireMember t name
    let rest ← requireMembers r m.ty names
    pure (m :: rest)

end Registry

namespace TableM

def ofChecked {α : Type} (x : Checked α) : TableM α :=
  match x with
  | .ok a => pure a
  | .error e => throw e

end TableM

namespace Configuration

variable (c : Configuration)

/-- The path rule for the longest leading part of a path, and the length of that part. -/
def longestPathRule? (m : Mapping) (path : List String) : Option (Nat × PathRule) :=
  (List.range path.length).reverse.findSome? fun i =>
    (c.pathRule? m (path.take (i + 1))).map (i + 1, ·)

/-- What the next step of a path comes to: the step, the model and data types reached, and
how many further segments it takes. -/
structure Advance where
  step : DataStep
  model : Ty
  data : Ty
  taken : Nat

def literalMismatch (model data : Ty) (m : Member) (p : MemberRule) (dataTy : Ty) : MappingError :=
  .literalTypeMismatch
    (c.types.tyText model ++ "." ++ m.name ++ " (" ++ c.types.tyText m.ty ++ ")")
    (c.types.tyText data ++ "." ++ p.inputText ++ " (" ++ c.types.tyText dataTy ++ ")")

/-- A step by the rule of a member.  Literals are not converted silently. -/
def advanceByRule (map : Mapping) (fullPath : String) (model data : Ty) (name : String) :
    Checked Advance := do
  let m ← c.types.requireMember model name
  match (c.memberRule? map name).filter fun p => p.isFed && !p.ignored with
  | none => .error (.unmappedMember (c.types.tyText model) name fullPath)
  | some p =>
    let dataTy := p.inputType?.getD m.ty
    match p.custom with
    | some custom => pure ⟨.custom custom, m.ty, dataTy, 0⟩
    | none =>
      if c.types.isLiteral m.ty && c.types.isLiteral dataTy && m.ty != dataTy then
        .error (c.literalMismatch model data ⟨name, m.ty⟩ p dataTy)
      else pure ⟨.members p.source, m.ty, dataTy, 0⟩

/-- A step by a path rule over the leading segments. -/
def advanceByPathRule (model : Ty) (path : List String) (p : PathRule) : Checked Advance := do
  let ms ← c.types.requireMembers model path
  match p.custom.lambdaParts? with
  | some (_, body, _) =>
    pure ⟨.custom p.custom, (ms.getLast?.map (·.ty)).getD model, body.ty, path.length - 1⟩
  | none =>
    .error (.invalidConfiguration ("path map " ++ ".".intercalate path ++ " is not a lambda"))

/-- A step between two types that differ, along the mapping between them. -/
def advanceByMapping (fullPath : String) (model data : Ty) (name : String) (rest : List String) :
    Checked Advance :=
  match c.mapping? data model with
  | none => .error (.missingTypeMap (c.types.tyText data) (c.types.tyText model))
  | some map =>
    match c.longestPathRule? map (name :: rest) with
    | some (n, p) => c.advanceByPathRule model ((name :: rest).take n) p
    | none => c.advanceByRule map fullPath model data name

/-- A step between types that have the same members by themselves. -/
def advanceAlike (model data : Ty) (name : String) : TableM Advance := do
  let m ← TableM.ofChecked (c.types.requireMember model name)
  let d ← TableM.ofChecked (c.types.requireMember data name)
  c.relate m.ty d.ty
  pure ⟨.members [d], m.ty, d.ty, 0⟩

def advance (fullPath : String) (model data : Ty) (name : String) (rest : List String) :
    TableM Advance :=
  if c.sharesFormer model data || (c.types.isLiteral model && c.types.isLiteral data) then
    c.advanceAlike model data name
  else TableM.ofChecked (c.advanceByMapping fullPath model data name rest)

/-- The steps with one more. -/
def appendStep (steps : List DataStep) : DataStep → List DataStep
  | .members ms => DataStep.appendMembers steps ms
  | .custom e => steps ++ [.custom e]

/-- Follows the rest of a path, in at most `budget` steps. -/
def followPath (limit : Nat) (fullPath : String) :
    Nat → Ty → Ty → List String → List DataStep → TableM (List DataStep)
  | _, _, _, [], steps => pure steps
  | 0, _, _, _ :: _, _ => throw (.recursionLimit limit)
  | budget + 1, model, data, name :: rest, steps =>
    if model = data then do
      let ms ← TableM.ofChecked (c.types.requireMembers model (name :: rest))
      pure (DataStep.appendMembers steps ms)
    else do
      let a ← c.advance fullPath model data name rest
      followPath limit fullPath budget a.model a.data (rest.drop a.taken) (appendStep steps a.step)

/-- The steps over `data` for a path of members of `model`. -/
def dataPath (model data : Ty) (path : List String) (limit : Nat) : TableM (List DataStep) :=
  c.followPath limit (".".intercalate path) limit model data path []

end Configuration

end Recast
