import Recast.Expr.Checked

/-! # Mappings

A mapping says how each member of a destination (model) record is read from a
source (data) record: from a chain of source members, by a custom lambda over
the source, or not at all.

- `MemberRule`, `PathRule`, `Mapping` — for one member, for a whole path of
  members, for one pair of types.
- `Configuration` — the mappings over a registry, in the order they were made.
-/

namespace Recast

/-- How one destination member is populated. -/
structure MemberRule where
  member : Member
  /-- The chain of members read from the source; several for a flattened member. -/
  source : List Member := []
  /-- A lambda over the source type. -/
  custom : Option Expr := none
  ignored : Bool := false

namespace MemberRule

/-- The type of what feeds the member. -/
def inputType? (p : MemberRule) : Option Ty :=
  match p.custom with
  | some custom => custom.lambdaParts?.map fun (_, body, _) => body.ty
  | none => p.source.getLast?.map (·.ty)

def isFed (p : MemberRule) : Bool := p.custom.isSome || !p.source.isEmpty

def inputText (p : MemberRule) : String := ".".intercalate (p.source.map (·.name))

/-- Mapped or deliberately left out. -/
def isSettled (p : MemberRule) : Bool := p.isFed || p.ignored

end MemberRule

/-- A custom lambda for a whole path of destination members. -/
structure PathRule where
  path : List String
  custom : Expr

structure Mapping where
  source : Ty
  destination : Ty
  rules : List MemberRule := []
  pathRules : List PathRule := []
  /-- The mappings whose rules this one inherits. -/
  bases : List TyPair := []
  /-- The mappings that inherit the rules of this one. -/
  derived : List TyPair := []

namespace Mapping

def pair (m : Mapping) : TyPair := ⟨m.source, m.destination⟩

def ownRule? (m : Mapping) (name : String) : Option MemberRule :=
  m.rules.find? (·.member.name == name)

def ownPathRule? (m : Mapping) (path : List String) : Option PathRule :=
  m.pathRules.find? (·.path == path)

end Mapping

structure Configuration where
  types : Registry
  maps : List Mapping := []

namespace Configuration

def mappingOf? (c : Configuration) (p : TyPair) : Option Mapping :=
  c.maps.find? (·.pair == p)

/-- The mapping from a source to a destination type. -/
def mapping? (c : Configuration) (source destination : Ty) : Option Mapping :=
  c.mappingOf? ⟨source, destination⟩

end Configuration

end Recast
