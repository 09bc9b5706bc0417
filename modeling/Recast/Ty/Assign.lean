import Recast.Ty.Members

/-! # Conversions between types

- `isAssignable` — a value of one type is a value of the other as it stands:
  the same type, anything as `Object`, a value lifted to `Nullable<>`, a record
  as one of its bases, a sequence as a sequence of wider elements, a delegate as
  one with a wider return type.
- `isConvertible` — an explicit conversion exists: either direction of the
  above, between numbers and enumerations, between dates.
-/

namespace Recast

namespace Registry

variable (r : Registry)

/-- A record as one of its bases. -/
def extends? (source target : Ty) : Bool := r.isRecord source && r.descendsFrom source target

def isAssignable (source : Ty) : Ty → Bool
  | .object =>
    source == .object ||
      if r.isRedefined .object then r.extends? source .object
      else !(source == .void && !r.isRedefined .void)
  | .nullable u =>
    source == .nullable u || (!r.isRedefined (.nullable u) && u == source) ||
      r.extends? source (.nullable u)
  | .seq .enumerable e =>
    source == .seq .enumerable e ||
      match if r.isRedefined (.seq .enumerable e) then none else r.element? source with
      | some s => s == e || (!r.isValueType s && isAssignable s e)
      | none => r.extends? source (.seq .enumerable e)
  | .func ps ret =>
    source == .func ps ret ||
      match if r.isRedefined (.func ps ret) || r.isRedefined source then .void else source with
      | .func sps sret => sps == ps && isAssignable sret ret
      | _ => r.extends? source (.func ps ret)
  | t => source == t || r.extends? source t

/-- Numbers, characters and enumerations convert into one another. -/
def isNumberLike (t : Ty) : Bool :=
  r.isEnum t || (r.literal? t).any fun l => l.isNumeric || l == .char

def isDate (t : Ty) : Bool :=
  (r.literal? t).any fun l => l == .dateTime || l == .dateTimeOffset

def isConvertible (source target : Ty) : Bool :=
  let s := r.stripNullable source
  let t := r.stripNullable target
  r.isAssignable source target || r.isAssignable target source || s == t ||
    (r.isNumberLike s && r.isNumberLike t) || (r.isDate s && r.isDate t) ||
    (r.isRecord source && r.isRecord target && r.descendsFrom target source)

end Registry

end Recast
