import Recast.Ty.Registry

/-! # What a type offers

Members, elements, arguments and parts of a type, as seen through a registry:
a redefined type is a record and nothing else.

- `members` — of a record with those of its bases first, or of an anonymous
  record.
- `member?` — by name, built-in members included.
- `descendsFrom` — the base chain of one type meets another.
- `tyArgs`, `rebuildOver` — take a type apart and rebuild it over
  other arguments.
-/

namespace Recast

/-- The generic definition that a constructed type closes. -/
inductive TyFormer where
  | seq (kind : SeqKind)
  | dictionary
  | keyValue
  | record (id : Nat)
  | nullable
  | array
  deriving DecidableEq

namespace Registry

variable (r : Registry)

/-! ## Literals and scalars -/

/-- The literal of a type, looking through `Nullable<>`. -/
def literal? : Ty → Option Literal
  | .literal l => if r.isRedefined (.literal l) then none else some l
  | .nullable t => if r.isRedefined (.nullable t) then none else literal? t
  | _ => none

def isLiteral (t : Ty) : Bool := (r.literal? t).isSome

/-- Literals and enumerations, and their nullable forms. -/
def isScalar (t : Ty) : Bool := r.isLiteral t || r.isEnum (r.stripNullable t)

def isIntegral (t : Ty) : Bool := (r.literal? t).any (·.isIntegral)

/-! ## Base chains -/

def baseWeight : Nat :=
  total (r.declarations.map fun
    | .record _ base _ | .generic _ _ base _ => (base.map Ty.size).getD 0
    | .enumeration _ _ => 0) +
  total (r.redefined.map fun d => (d.2.base.map Ty.size).getD 0)

/-- A bound on the length of base chains without a cycle.  An instance that is kept comes at most
once.  Every other step either strips a layer of arguments or replaces a declared head by its
base, which adds no more layers than the base has. -/
def chainBound (t : Ty) : Nat :=
  Nat.pow (t.size + r.baseWeight + 2) (r.declarations.length + r.redefined.length + 1) +
    r.instances.length

def descendsWithin (base : Ty) : Nat → Ty → Bool
  | 0, t => t == base
  | n + 1, t => t == base ||
    match r.base? t with
    | some b => descendsWithin base n b
    | none => false

/-- `t` is `base` or has it in its base chain. -/
def descendsFrom (t base : Ty) : Bool := r.descendsWithin base (r.chainBound t) t

def membersWithin : Nat → Ty → List Member
  | 0, _ => []
  | n + 1, t =>
    match r.record? t with
    | some d =>
      let inherited := match d.base with
        | some b => membersWithin n b
        | none => []
      d.members.foldl putMember inherited
    | none =>
      match t with
      | .anonymous ms => ms
      | _ => []

/-- Members of the type and its bases, bases first; a redeclared member moves to the end. -/
def members (t : Ty) : List Member := r.membersWithin (r.chainBound t + 1) t

def memberNames (t : Ty) : List String := (r.members t).map (·.name)

/-! ## Members by name -/

/-- Members that a type has without declaring them, as long as it is not redefined. -/
def builtinMember? (t : Ty) (name : String) : Option Ty :=
  match t, name with
  | .nullable _, "HasValue" => some .boolean
  | .nullable u, "Value" => some u
  | .array _, "Length" => some .int32
  | .seq .list _, "Count" => some .int32
  | .dictionary _ _, "Count" => some .int32
  | .keyValue k _, "Key" => some k
  | .keyValue _ v, "Value" => some v
  | .literal .string, "Length" => some .int32
  | .literal l, _ =>
    if l = .dateTime ∨ l = .dateTimeOffset then
      if name = "Year" ∨ name = "Month" ∨ name = "Day" then some .int32
      else if name = "Date" then some .dateTime
      else none
    else none
  | _, _ => none

def isAnonymous (t : Ty) : Bool :=
  match t with
  | .anonymous _ => !r.isRedefined t
  | _ => false

def member? (t : Ty) (name : String) : Option Member :=
  if r.isRecord t || r.isAnonymous t then (r.members t).find? (·.name == name)
  else (builtinMember? t name).map (⟨name, ·⟩)

/-! ## Elements and delegates -/

/-- The element type of arrays and containers; a dictionary enumerates key value pairs. -/
def element? (t : Ty) : Option Ty :=
  if r.isRedefined t then none
  else match t with
    | .array e | .seq _ e => some e
    | .dictionary k v => some (.keyValue k v)
    | _ => none

def isSequence (t : Ty) : Bool := (r.element? t).isSome

/-- Parameter and return types of a delegate, looking through `Expression<>`. -/
def signature? : Ty → Option (List Ty × Ty)
  | .func ps ret => if r.isRedefined (.func ps ret) then none else some (ps, ret)
  | .expression t => if r.isRedefined (.expression t) then none else signature? t
  | _ => none

def isDelegate (t : Ty) : Bool := (r.signature? t).isSome

/-- The delegate inside `Expression<>`, or the type itself. -/
def stripExpression (t : Ty) : Ty :=
  match t with
  | .expression d => if r.isRedefined t then t else d
  | _ => t

/-! ## Arguments -/

def former? (t : Ty) : Option TyFormer :=
  match t with
  | .inst generic _ => some (.record generic)
  | _ =>
    if r.isRedefined t then none
    else match t with
      | .seq kind _ => some (.seq kind)
      | .dictionary _ _ => some .dictionary
      | .keyValue _ _ => some .keyValue
      | .nullable _ => some .nullable
      | .array _ => some .array
      | _ => none

def formerText : TyFormer → String
  | .seq kind => kind.name
  | .dictionary => "Dictionary"
  | .keyValue => "KeyValuePair"
  | .nullable => "Nullable"
  | .array => "Array"
  | .record id => r.tyText (.declared id)

def tyArgs (t : Ty) : List Ty :=
  match t with
  | .inst _ args => args
  | _ =>
    if r.isRedefined t then []
    else match t with
      | .nullable u | .array u | .expression u | .seq _ u => [u]
      | .dictionary k v | .keyValue k v => [k, v]
      | .func ps ret => ps ++ [ret]
      | .anonymous ms => ms.map (·.ty)
      | _ => []

/-- A type of the same shape over other arguments; the type itself if their number differs. -/
def rebuildOver (t : Ty) (args : List Ty) : Ty :=
  if args.length ≠ (r.tyArgs t).length then t
  else match t with
    | .inst generic _ => (r.instantiate? (.declared generic) args).getD t
    | _ =>
      if r.isRedefined t then t
      else match t, args with
        | .nullable _, [a] => r.nullable a
        | .array _, [a] => .array a
        | .expression _, [a] => .expression a
        | .seq kind _, [a] => .seq kind a
        | .dictionary _ _, [k, v] => .dictionary k v
        | .keyValue _ _, [k, v] => .keyValue k v
        | .func _ _, args => .func args.dropLast (args.getLastD t)
        | .anonymous ms, args => .anonymous (ms.zipWith (fun m a => ⟨m.name, a⟩) args)
        | _, _ => t

mutual

/-- The type mentions a generic parameter. -/
def isOpen : Ty → Bool
  | t@(.param _) => !r.isRedefined t
  | .inst _ ts => isOpenAny ts
  | t@(.nullable u) | t@(.array u) | t@(.seq _ u) | t@(.expression u) =>
    !r.isRedefined t && isOpen u
  | t@(.dictionary k v) | t@(.keyValue k v) => !r.isRedefined t && (isOpen k || isOpen v)
  | t@(.func ps ret) => !r.isRedefined t && (isOpenAny ps || isOpen ret)
  | t@(.anonymous ms) => !r.isRedefined t && isOpenMember ms
  | _ => false

def isOpenAny : List Ty → Bool
  | [] => false
  | t :: ts => isOpen t || isOpenAny ts

def isOpenMember : List Member → Bool
  | [] => false
  | ⟨_, t⟩ :: ms => isOpen t || isOpenMember ms

end

end Registry

end Recast
