import Recast.Config.Inherit

/-! # Correspondences of types

A `TypeTable` records which data type stands for which model type, in the order
in which the correspondences were found.  A model type has at most one data
type, the first one registered.

- `Configuration.implied` — what one correspondence implies for the parts and
  members of its types.
- `Configuration.relate` — a pair with everything it implies, breadth first.
- `TypeTable.dataType` — the data type for a model type: constructed types are
  rebuilt over resolved arguments, and an unknown type stands for itself.
-/

namespace Recast

structure TypeTable where
  /-- Model and data types, first registered first. -/
  entries : List (Ty × Ty) := []
  deriving Inhabited

namespace TypeTable

def get? (t : TypeTable) (model : Ty) : Option Ty :=
  (t.entries.find? (·.1 == model)).map (·.2)

def contains (t : TypeTable) (model : Ty) : Bool := t.entries.any (·.1 == model)

def size (t : TypeTable) : Nat := t.entries.length

def add (t : TypeTable) (model data : Ty) : TypeTable := ⟨t.entries ++ [(model, data)]⟩

/-! ## Resolution -/

variable (t : TypeTable) (r : Registry)

/-- A type over resolved arguments; the type itself if none of them changed. -/
def rebuilt (model : Ty) (args : List Ty) : Ty :=
  if args = r.tyArgs model then model else r.rebuildOver model args

mutual

def dataType (model : Ty) : Ty :=
  match t.get? model with
  | some data => data
  | none =>
    match model with
    | .inst generic args => rebuilt r (.inst generic args) (dataTypes args)
    | .nullable u =>
      if r.isRedefined (.nullable u) then .nullable u else rebuilt r (.nullable u) [dataType u]
    | .array u => if r.isRedefined (.array u) then .array u else rebuilt r (.array u) [dataType u]
    | .seq kind u =>
      if r.isRedefined (.seq kind u) then .seq kind u else rebuilt r (.seq kind u) [dataType u]
    | .expression u =>
      if r.isRedefined (.expression u) then .expression u
      else rebuilt r (.expression u) [dataType u]
    | .dictionary k v =>
      if r.isRedefined (.dictionary k v) then .dictionary k v
      else rebuilt r (.dictionary k v) [dataType k, dataType v]
    | .keyValue k v =>
      if r.isRedefined (.keyValue k v) then .keyValue k v
      else rebuilt r (.keyValue k v) [dataType k, dataType v]
    | .func ps ret =>
      if r.isRedefined (.func ps ret) then .func ps ret
      else rebuilt r (.func ps ret) (dataTypes ps ++ [dataType ret])
    | .anonymous ms =>
      if r.isRedefined (.anonymous ms) then .anonymous ms
      else rebuilt r (.anonymous ms) (dataMembers ms)
    | model => model

def dataTypes : List Ty → List Ty
  | [] => []
  | u :: us => dataType u :: dataTypes us

def dataMembers : List Member → List Ty
  | [] => []
  | ⟨_, u⟩ :: ms => dataType u :: dataMembers ms

end

def resolutionsWithin : Nat → Ty → List (Ty × Ty)
  | 0, _ => []
  | n + 1, model =>
    if t.contains model then []
    else (model, t.dataType r model) :: (r.tyArgs model).flatMap (resolutionsWithin n)

/-- The types without an entry that are met on the way to the data type, each with what it
stands for. -/
def resolutions (model : Ty) : List (Ty × Ty) := t.resolutionsWithin r (model.size + 1) model

/-- The types that are built on the way to the data type. -/
def built (model : Ty) : List Ty := (t.resolutions r model).map (·.2)

end TypeTable

/-! ## Registration -/

/-- Computations that may fail and extend a table.  What was registered before a failure
stays registered. -/
abbrev TableM := ExceptT MappingError (StateM TypeTable)

namespace Configuration

variable (c : Configuration)

/-- Both types close the same generic definition and are not mapped as a whole. -/
def sharesFormer (model data : Ty) : Bool :=
  (c.types.former? model).isSome && c.types.former? model == c.types.former? data &&
    (c.mapping? data model).isNone

/-- The correspondence of a mapped member, unless one of its types is a literal. -/
def memberPair? (p : MemberRule) : Option (Ty × Ty) :=
  match p.inputType? with
  | some data =>
    if p.isFed && !c.types.isLiteral p.member.ty && !c.types.isLiteral data then
      some (p.member.ty, data)
    else none
  | none => none

/-- The pairs that a mapping implies: its members, then the mappings it is linked to. -/
def mappingPairs (m : Mapping) : List (Ty × Ty) :=
  (c.allRules m).filterMap c.memberPair? ++
    (m.bases ++ m.derived).map fun p => (p.destination, p.source)

/-- The pairs that a correspondence implies: parameters and return types of delegates,
elements of sequences, arguments of a shared generic definition, or what the mapping
between the two types says. -/
def implied (model data : Ty) : Checked (List (Ty × Ty)) :=
  match c.types.signature? model with
  | some (params, ret) =>
    match c.types.signature? data with
    | none => .error (.invalidArgument (c.types.tyText model ++ " is a delegate type but " ++
        c.types.tyText data ++ " is not"))
    | some (dataParams, dataRet) =>
      if params.length = dataParams.length then .ok (params.zip dataParams ++ [(ret, dataRet)])
      else .error (.argumentCountMismatch (c.types.tyText model) (c.types.tyText data)
        params.length dataParams.length)
  | none =>
    if c.types.isSequence model || c.types.isSequence data then
      match c.types.element? model, c.types.element? data with
      | some m, some d => .ok [(m, d)]
      | _, _ => .ok []
    else if c.sharesFormer model data then
      .ok ((c.types.tyArgs model).zip (c.types.tyArgs data))
    else match c.mapping? data model with
      | some m => .ok (c.mappingPairs m)
      | none => .ok []

/-- Registers the pending pairs in order; what a new entry implies goes to the end. -/
def drain : Nat → List (Ty × Ty) → TableM Unit
  | 0, _ => pure ()
  | _, [] => pure ()
  | n + 1, (model, data) :: pending => do
    let model := c.types.stripExpression model
    let data := c.types.stripExpression data
    if model = data || (← get).contains model then drain n pending
    else do
      modify (·.add model data)
      match c.implied model data with
      | .ok pairs => drain n (pending ++ pairs)
      | .error e => throw e

/-- How much a mapping can bring into a table. -/
def mappingWeight (m : Mapping) : Nat :=
  total (m.rules.map fun p => p.member.ty.size + 1) +
    total ((m.bases ++ m.derived).map fun p => p.destination.size + 1) + 1

/-- A bound on the pairs looked at when a model type is registered.  New model types are
parts of this one or of types in the mappings, or key value pairs of such parts; each implies
at most as many pairs as there are parts. -/
def drainBound (model : Ty) : Nat :=
  let types := 2 * (model.size + total (c.maps.map mappingWeight) + 1)
  types * types

/-- Registers that `model` corresponds to `data`, with everything that implies. -/
def relate (model data : Ty) : TableM Unit := c.drain (c.drainBound model) [(model, data)]

end Configuration

end Recast
