import Recast.Ty.Assign
import Recast.Ty.Instance

/-! # Methods

A method definition is closed over type arguments, given or inferred from the
types of the arguments.

- `Registry.closeMethod?` — close over given type arguments.
- `Registry.unify` — match a parameter type against an argument type, binding
  the method's type parameters on first sight.
- `Registry.closeByArguments?` — close over the arguments that unification finds.
-/

namespace Recast

/-- A method closed over type arguments. -/
structure Method where
  definition : MethodSig
  typeArgs : List Ty
  params : List Ty
  ret : Ty
  deriving DecidableEq, Inhabited

namespace Method

def name (m : Method) : String := m.definition.name

def declaring (m : Method) : String := m.definition.declaring

def isStatic (m : Method) : Bool := m.definition.isStatic

def isGeneric (m : Method) : Bool := 0 < m.definition.typeParams

def qualifiedName (m : Method) : String := m.declaring ++ "." ++ m.name

end Method

/-- What the type parameters of a method are bound to so far. -/
abbrev TypeBindings := List (Option Ty)

namespace Registry

variable (r : Registry)

def methodText (m : Method) : String :=
  r.tyText m.ret ++ " " ++ m.qualifiedName ++ "(" ++ ", ".intercalate (m.params.map r.tyText) ++ ")"

def closeMethod? (d : MethodSig) (typeArgs : List Ty) : Option Method :=
  if typeArgs.length = d.typeParams then
    some { definition := d
           typeArgs := typeArgs
           params := d.params.map (r.substitute typeArgs)
           ret := r.substitute typeArgs d.ret }
  else none

/-- The types that are built when a method is closed. -/
def builtByMethod (m : Method) : List Ty :=
  (m.definition.params ++ [m.definition.ret]).flatMap (r.builtBy m.typeArgs)

/-- A closed parameter type, or one of a shape that binds nothing, takes what is assignable. -/
def unifyClosed (template actual : Ty) (bound : TypeBindings) : Option TypeBindings :=
  if !r.isOpen template && r.isAssignable actual template then some bound else none

mutual

/-- The bindings after matching an argument of type `actual` against `template`. -/
def unify : Ty → Ty → TypeBindings → Option TypeBindings
  | .param i, actual, bound =>
    if r.isRedefined (.param i) then r.unifyClosed (.param i) actual bound
    else match bound[i]?.join with
      | some t => if t == actual || r.isAssignable actual t then some bound else none
      | none => some (bound.set i (some actual))
  | .seq kind t, actual, bound =>
    if !r.isOpen (.seq kind t) then r.unifyClosed (.seq kind t) actual bound
    else match kind, r.element? actual, actual with
      | .enumerable, some e, _ => unify t e bound
      | kind, _, .seq kind' a =>
        if kind = kind' && !r.isRedefined (.seq kind' a) then unify t a bound else none
      | _, _, _ => none
  | .dictionary k v, actual, bound =>
    if !r.isOpen (.dictionary k v) then r.unifyClosed (.dictionary k v) actual bound
    else match actual with
      | .dictionary k' v' =>
        if r.isRedefined actual then none else (unify k k' bound).bind (unify v v')
      | _ => none
  | .keyValue k v, actual, bound =>
    if !r.isOpen (.keyValue k v) then r.unifyClosed (.keyValue k v) actual bound
    else match actual with
      | .keyValue k' v' =>
        if r.isRedefined actual then none else (unify k k' bound).bind (unify v v')
      | _ => none
  | .func ps ret, actual, bound =>
    if !r.isOpen (.func ps ret) then r.unifyClosed (.func ps ret) actual bound
    else match actual with
      | .func ps' ret' =>
        if r.isRedefined actual || ps.length != ps'.length then none
        else (unifyAll ps ps' bound).bind (unify ret ret')
      | _ => none
  | .expression t, actual, bound =>
    if !r.isOpen (.expression t) then r.unifyClosed (.expression t) actual bound
    else match actual with
      | .expression a => if r.isRedefined actual then none else unify t a bound
      | _ => none
  | .nullable t, actual, bound =>
    if !r.isOpen (.nullable t) then r.unifyClosed (.nullable t) actual bound
    else match actual with
      | .nullable a => if r.isRedefined actual then none else unify t a bound
      | _ => none
  | .array t, actual, bound =>
    if !r.isOpen (.array t) then r.unifyClosed (.array t) actual bound
    else match actual with
      | .array a => if r.isRedefined actual then none else unify t a bound
      | _ => none
  | template, actual, bound => r.unifyClosed template actual bound

def unifyAll : List Ty → List Ty → TypeBindings → Option TypeBindings
  | t :: ts, a :: as, bound => (unify t a bound).bind (unifyAll ts as)
  | _, _, bound => some bound

end

def closeByArguments? (d : MethodSig) (argTypes : List Ty) : Option Method :=
  if argTypes.length = d.params.length then do
    let bound ← r.unifyAll d.params argTypes (List.replicate d.typeParams none)
    let typeArgs ← bound.mapM id
    r.closeMethod? d typeArgs
  else none

end Registry

end Recast
