/-! # Literal types

The terminal types: their values are never taken apart into members.
-/

namespace Recast

inductive Literal where
  | boolean | byte | sbyte | int16 | uint16 | int32 | uint32 | int64 | uint64
  | single | double | decimal | char | string | guid | dateTime | dateTimeOffset | timeSpan
  deriving DecidableEq, Repr, Inhabited

namespace Literal

def all : List Literal :=
  [.boolean, .byte, .sbyte, .int16, .uint16, .int32, .uint32, .int64, .uint64,
    .single, .double, .decimal, .char, .string, .guid, .dateTime, .dateTimeOffset, .timeSpan]

def name : Literal → String
  | boolean => "Boolean"
  | byte => "Byte"
  | sbyte => "SByte"
  | int16 => "Int16"
  | uint16 => "UInt16"
  | int32 => "Int32"
  | uint32 => "UInt32"
  | int64 => "Int64"
  | uint64 => "UInt64"
  | single => "Single"
  | double => "Double"
  | decimal => "Decimal"
  | char => "Char"
  | string => "String"
  | guid => "Guid"
  | dateTime => "DateTime"
  | dateTimeOffset => "DateTimeOffset"
  | timeSpan => "TimeSpan"

def ofName? (s : String) : Option Literal := all.find? (·.name == s)

def isIntegral : Literal → Bool
  | byte | sbyte | int16 | uint16 | int32 | uint32 | int64 | uint64 => true
  | _ => false

def isFractional : Literal → Bool
  | single | double | decimal => true
  | _ => false

def isNumeric (l : Literal) : Bool := l.isIntegral || l.isFractional

/-- Literals whose values have a natural order. -/
def isOrdered (l : Literal) : Bool :=
  l.isNumeric || match l with
    | char | dateTime | dateTimeOffset | timeSpan => true
    | _ => false

end Literal

end Recast
