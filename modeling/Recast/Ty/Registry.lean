import Recast.Ty.Basic

/-! # Declared types

A `Registry` holds what cannot be read off a type itself: the declarations of
enumerations, records and open generic records, and the catalogue of methods.
Of the types built from other types only instances of generic records are kept,
with the members that they were first closed with (`Recast.Ty.Instance`).

A declaration may be redefined as a record at any time, and so may any other
type; a redefined type is a record wherever it occurs.

- `substitute` — generic parameters replaced by arguments.
- `record?` — the definition of a record.  An instance that is not kept yet
  reads its members off the generic declaration.
- `tyText` — the name of a type; redefining a type does not change it.
-/

namespace Recast

/-- What a registry says about a record. -/
structure RecordInfo where
  name : String
  base : Option Ty
  members : List Member
  /-- The generic declaration and arguments of an instance. -/
  origin : Option (Nat × List Ty)

inductive Declaration where
  | enumeration (name : String) (variants : List String)
  | record (name : String) (base : Option Ty) (members : List Member)
  /-- An open record whose members may mention that many parameters. -/
  | generic (name : String) (params : Nat) (base : Option Ty) (members : List Member)
  deriving Inhabited

/-- A method signature.  Its types mention the method's own type parameters as `Ty.param`. -/
structure MethodSig where
  declaring : String
  name : String
  isStatic : Bool
  typeParams : Nat
  params : List Ty
  ret : Ty
  deriving DecidableEq, Inhabited

structure Registry where
  declarations : List Declaration := []
  /-- Types redefined as records, latest first. -/
  redefined : List (Ty × RecordInfo) := []
  /-- The instances closed so far, each as its generic record read at that time.  One that is
  mentioned inside the declaration of its own generic record is closed before there are any
  members, and stays empty. -/
  instances : List (Ty × RecordInfo) := []
  methods : List MethodSig := []

namespace Registry

variable (r : Registry)

def redefinition? (t : Ty) : Option RecordInfo :=
  (r.redefined.find? (·.1 == t)).map (·.2)

def isRedefined (t : Ty) : Bool := r.redefined.any (·.1 == t)

/-- The declaration of a type, unless it has been redefined. -/
def declaration? (t : Ty) : Option Declaration :=
  match t with
  | .declared id => if r.isRedefined t then none else r.declarations[id]?
  | _ => none

/-! ## Names -/

mutual

/-- Human readable name. -/
def tyText : Ty → String
  | .object => "Object"
  | .void => "Void"
  | .literal l => l.name
  | .nullable t => "Nullable<" ++ tyText t ++ ">"
  | .param i => "T" ++ toString i
  | .declared id =>
    match r.declarations[id]? with
    | some (.enumeration name _) => name
    | some (.record name _ _) => name
    | some (.generic name params _ _) =>
      name ++ "<" ++ ", ".intercalate ((List.range params).map fun i => "T" ++ toString i) ++ ">"
    | none => ""
  | .inst generic args =>
    match r.declarations[generic]? with
    | some (.generic name _ _ _) => name ++ "<" ++ ", ".intercalate (tyTexts args) ++ ">"
    | _ => ""
  | .anonymous ms => "\x7b " ++ ", ".intercalate (memberTexts ms) ++ " \x7d"
  | .array t => tyText t ++ "[]"
  | .seq kind t => kind.name ++ "<" ++ tyText t ++ ">"
  | .dictionary k v => "Dictionary<" ++ tyText k ++ ", " ++ tyText v ++ ">"
  | .keyValue k v => "KeyValuePair<" ++ tyText k ++ ", " ++ tyText v ++ ">"
  | .func ps ret => "Func<" ++ ", ".intercalate (tyTexts ps ++ [tyText ret]) ++ ">"
  | .expression t => "Expression<" ++ tyText t ++ ">"

def tyTexts : List Ty → List String
  | [] => []
  | t :: ts => tyText t :: tyTexts ts

def memberTexts : List Member → List String
  | [] => []
  | ⟨name, t⟩ :: ms => (name ++ ": " ++ tyText t) :: memberTexts ms

end

/-! ## Nullable types -/

def variants? (t : Ty) : Option (List String) :=
  match r.declaration? t with
  | some (.enumeration _ variants) => some variants
  | _ => none

def isEnum (t : Ty) : Bool := (r.variants? t).isSome

/-- Literals other than strings, enumerations, nullables and key value pairs. -/
def isValueType (t : Ty) : Bool :=
  if r.isRedefined t then false
  else match t with
    | .literal l => l != .string
    | .nullable _ | .keyValue _ _ => true
    | _ => r.isEnum t

def underlying? (t : Ty) : Option Ty :=
  match t with
  | .nullable u => if r.isRedefined t then none else some u
  | _ => none

/-- The type without `Nullable<>`, if it has one. -/
def stripNullable (t : Ty) : Ty := (r.underlying? t).getD t

/-- `Nullable<T>`; reference types and nullables are nullable already. -/
def nullable (t : Ty) : Ty :=
  if r.isValueType t && (r.underlying? t).isNone then .nullable t else t

/-! ## Generic records -/

/-- An open generic record closed over as many arguments as it has parameters. -/
def instantiate? (definition : Ty) (args : List Ty) : Option Ty :=
  match definition, r.declaration? definition with
  | .declared id, some (.generic _ params _ _) =>
    if params = args.length then some (.inst id args) else none
  | _, _ => none

mutual

/-- The type with each generic parameter replaced by the argument of its position. -/
def substitute (args : List Ty) : Ty → Ty
  | t@(.param i) => if r.isRedefined t then t else args[i]?.getD t
  | t@(.nullable u) => if r.isRedefined t then t else r.nullable (substitute args u)
  | t@(.array u) => if r.isRedefined t then t else .array (substitute args u)
  | t@(.seq kind u) => if r.isRedefined t then t else .seq kind (substitute args u)
  | t@(.dictionary k v) =>
    if r.isRedefined t then t else .dictionary (substitute args k) (substitute args v)
  | t@(.keyValue k v) =>
    if r.isRedefined t then t else .keyValue (substitute args k) (substitute args v)
  | t@(.func ps ret) =>
    if r.isRedefined t then t else .func (substituteAll args ps) (substitute args ret)
  | t@(.expression u) => if r.isRedefined t then t else .expression (substitute args u)
  | t@(.anonymous ms) => if r.isRedefined t then t else .anonymous (substituteMembers args ms)
  | t@(.inst generic ts) => (r.instantiate? (.declared generic) (substituteAll args ts)).getD t
  | t => t

def substituteAll (args : List Ty) : List Ty → List Ty
  | [] => []
  | t :: ts => substitute args t :: substituteAll args ts

def substituteMembers (args : List Ty) : List Member → List Member
  | [] => []
  | ⟨name, t⟩ :: ms => ⟨name, substitute args t⟩ :: substituteMembers args ms

end

/-! ## Records -/

/-- An instance as it was first closed. -/
def instance? (t : Ty) : Option RecordInfo :=
  (r.instances.find? (·.1 == t)).map (·.2)

/-- An instance as its generic record reads now. -/
def unfolded? (generic : Nat) (args : List Ty) : Option RecordInfo :=
  match r.declarations[generic]? with
  | some (.generic _ _ base members) =>
    some ⟨r.tyText (.inst generic args), base.map (r.substitute args),
      r.substituteMembers args members, some (generic, args)⟩
  | _ => none

def record? (t : Ty) : Option RecordInfo :=
  match r.redefinition? t with
  | some d => some d
  | none =>
    match t with
    | .declared id =>
      match r.declarations[id]? with
      | some (.record name base members) => some ⟨name, base, members, none⟩
      | _ => none
    | .inst generic args => (r.instance? t).or (r.unfolded? generic args)
    | _ => none

def isRecord (t : Ty) : Bool := (r.record? t).isSome

def base? (t : Ty) : Option Ty := (r.record? t).bind (·.base)

/-! ## Declaring -/

/-- The members with `m` last; an earlier member of the same name goes. -/
def putMember (members : List Member) (m : Member) : List Member :=
  members.filter (·.name != m.name) ++ [m]

/-- A new declaration and the type it declares. -/
def declare (d : Declaration) : Ty × Registry :=
  (.declared r.declarations.length, { r with declarations := r.declarations ++ [d] })

/-- Adds members to a record, and gives it a base if there is one.  Any other type is
redefined as a record of its present name. -/
def define (t : Ty) (base : Option Ty) (members : List Member) : Registry :=
  let old := (r.record? t).getD ⟨r.tyText t, none, [], none⟩
  let base := base.or old.base
  let members := members.foldl putMember old.members
  match t, r.declaration? t with
  | .declared id, some (.record name _ _) =>
    { r with declarations := r.declarations.set id (.record name base members) }
  | _, _ =>
    let redefined := r.redefined.filter (·.1 != t)
    { r with redefined := (t, ⟨old.name, base, members, old.origin⟩) :: redefined }

/-- Completes the declaration of an open generic record. -/
def defineGeneric (t : Ty) (base : Option Ty) (members : List Member) : Registry :=
  match t with
  | .declared id =>
    match r.declarations[id]? with
    | some (.generic name params _ _) =>
      let complete := .generic name params base (members.foldl putMember [])
      { r with declarations := r.declarations.set id complete }
    | _ => r
  | _ => r

def addMethod (m : MethodSig) : Registry := { r with methods := r.methods ++ [m] }

/-- The first method of that declaring type, name and number of parameters. -/
def method? (declaring name : String) (arity : Nat) : Option MethodSig :=
  r.methods.find? fun m => m.declaring == declaring && m.name == name && m.params.length == arity

end Registry

end Recast
