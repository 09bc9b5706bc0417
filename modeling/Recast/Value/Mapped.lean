import Recast.Config.Inherit
import Recast.Eval.Basic

/-! # Mapping values

Constants and rows are mapped between the two sides by the mappings of a
configuration: scalars by conversion, records member by member, lists item by
item.

- `Configuration.recordAs` — one field for every rule, inherited ones included;
  null for members that are ignored or unmapped.
- `Configuration.valueAs` — a value as another type.
-/

namespace Recast

/-- Maps a value from one type to another. -/
abbrev ValueMapping := Value → Ty → Ty → Except ValueError Value

/-- Leaves every value as it is. -/
def ValueMapping.keep : ValueMapping := fun v _ _ => .ok v

namespace Configuration

variable (c : Configuration)

def cannotMap (v : Value) (source target : Ty) : ValueError :=
  .unsupported v.text (c.types.tyText source) (c.types.tyText target)

def missingMap (source target : Ty) : ValueError :=
  .missingMap (c.types.tyText source) (c.types.tyText target)

def converted (v : Value) (source target : Ty) : Except ValueError Value :=
  match c.types.castValue v source target with
  | .ok w => .ok w
  | .error e => .error (.eval e)

/-- A text or variant as a variant of an enumeration. -/
def variantNamed (target : Ty) (variants : List String) (name : String) : Except ValueError Value :=
  if variants.contains name then .ok (.enum name)
  else .error (.unknownVariant name (c.types.tyText target))

/-- A scalar as another: variants go by name, and everything has a text. -/
def scalarAs (v : Value) (source target : Ty) : Except ValueError Value :=
  let s := c.types.stripNullable source
  let t := c.types.stripNullable target
  match c.types.variants? t with
  | some variants =>
    match v with
    | .str name => c.variantNamed t variants name
    | .enum name => c.variantNamed t variants name
    | _ => c.converted v s t
  | none =>
    match c.types.literal? t with
    | some .string => .ok (.str v.plain)
    | some _ =>
      if c.types.isScalar s then c.converted v s t else .error (c.cannotMap v source target)
    | none => .error (c.cannotMap v source target)

/-- Members read one after another from a value of static type `t`. -/
def readChain (v : Value) (t : Ty) : List Member → Except EvalError Value
  | [] => .ok v
  | m :: ms => do
    let w ← valueMember (c.types.underlying? t).isSome v m.name
    readChain w m.ty ms

/-- What feeds a member, and its type.  A chain with a missing link reads null. -/
def rawValue (p : MemberRule) (source : Ty) (v : Value) : Except EvalError (Value × Ty) :=
  let t := p.inputType?.getD p.member.ty
  match p.custom with
  | some custom => (c.types.apply custom [v]).map (·, t)
  | none =>
    match c.readChain v source p.source with
    | .error (.nullReference _) => .ok (.null, t)
    | .error e => .error e
    | .ok w => .ok (w, t)

section Records

variable (self : ValueMapping)

def ruleValue (p : MemberRule) (source : Ty) (v : Value) : Except ValueError Value :=
  if p.ignored || !p.isFed then .ok .null
  else match c.rawValue p source v with
    | .ok (raw, t) => self raw t p.member.ty
    | .error e => .error (.eval e)

def ruleValues (source : Ty) (v : Value) (done : List (String × Value)) :
    List MemberRule → Except ValueError (List (String × Value))
  | [] => .ok done
  | p :: ps => do
    let w ← c.ruleValue self p source v
    ruleValues source v (Value.putField done p.member.name w) ps

def recordAs (m : Mapping) (v : Value) : Except ValueError Value := do
  let fields ← c.ruleValues self m.source v [] (c.allRules m)
  pure (.record m.destination fields)

def itemsAs (source target : Ty) : List Value → Except ValueError (List Value)
  | [] => .ok []
  | v :: vs => do
    let w ← self v source target
    let ws ← itemsAs source target vs
    pure (w :: ws)

/-- The mapping for a record value: by its static type, else by its own type. -/
def mappingFor? (v : Value) (source target : Ty) : Option Mapping :=
  match v with
  | .record own _ => (c.mapping? source target).or (c.mapping? own target)
  | _ => none

/-- A value that is neither null nor a scalar, between types that differ. -/
def objectAs (v : Value) (source target : Ty) : Except ValueError Value :=
  match c.mappingFor? v source target with
  | some m => c.recordAs self m v
  | none =>
    match v with
    | .list items =>
      match c.types.element? source, c.types.element? target with
      | some s, some t => .list <$> itemsAs self s t items
      | _, _ => .error (c.cannotMap v source target)
    | .record _ _ =>
      if c.types.isAssignable source target then .ok v else .error (c.missingMap source target)
    | _ =>
      if c.types.isAssignable source target then .ok v else .error (c.cannotMap v source target)

end Records

/-- Maps values nested up to the given depth. -/
def valueWithin : Nat → ValueMapping
  | 0 => fun _ _ _ => .error (.eval .tooDeep)
  | n + 1 => fun v source target =>
    if source = target then .ok v
    else if v.isNull then .ok .null
    else match c.types.underlying? source, c.types.underlying? target with
      | some u, _ => valueWithin n v u target
      | none, some u => valueWithin n v source u
      | none, none =>
        if c.types.isScalar source || c.types.isScalar target then c.scalarAs v source target
        else c.objectAs (valueWithin n) v source target

/-- A value of type `source` as a value of type `target`. -/
def valueAs : ValueMapping := c.valueWithin Registry.evalDepth

end Configuration

end Recast
