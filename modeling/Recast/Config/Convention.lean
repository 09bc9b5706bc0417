import Recast.Config.Basic

/-! # Matching members by convention

A destination member that is not configured is read from the source member of
its name or, failing that, from a chain of members whose names make up its
words: `ChildValue` from `Child.Value`.

- `Registry.chainFor?` — the shortest first name that leads to a chain wins.
- `Registry.fill` — one rule for every destination member.
- `Mapping.reversed` — a mapping read the other way.
-/

namespace Recast

namespace Registry

variable (r : Registry)

/-- The chain of source members for a name.  The fuel bounds the letters of the name, of
which every step takes some. -/
def chainWithin? : Nat → Ty → String → Option (List Member)
  | 0, _, _ => none
  | n + 1, source, name =>
    match r.member? source name with
    | some m => some [m]
    | none =>
      if Name.isPascal name then
        let words := Name.words name
        (List.range (words.length - 1)).findSome? fun i => do
          let first ← r.member? source (String.join (words.take (i + 1)))
          let rest ← chainWithin? n first.ty (String.join (words.drop (i + 1)))
          some (first :: rest)
      else none

def chainFor? (source : Ty) (name : String) : Option (List Member) :=
  r.chainWithin? (name.length + 1) source name

def byConvention (source : Ty) (m : Member) : MemberRule :=
  { member := m, source := (r.chainFor? source m.name).getD [] }

/-- Rules for the members in order, taking each from `settled` where it is there,
and what is left of `settled` after them. -/
def fillMembers (source : Ty) (settled : List MemberRule) : List Member → List MemberRule
  | [] => settled
  | m :: ms =>
    match settled.find? (·.member.name == m.name) with
    | some p => p :: fillMembers source (settled.eraseP (·.member.name == m.name)) ms
    | none => r.byConvention source m :: fillMembers source settled ms

/-- A mapping with a rule for every member of its destination. -/
def fill (m : Mapping) : Mapping :=
  { m with rules := r.fillMembers m.source m.rules (r.members m.destination) }

end Registry

/-! ## Reversal -/

/-- What a rule gives in the other direction: a plain member for a plain member, a path
rule for a flattened one, with `parameter` standing for the whole. -/
def MemberRule.reversed (p : MemberRule) (parameter : Parameter) :
    List MemberRule × List PathRule :=
  if p.custom.isSome || p.ignored then ([], [])
  else match p.source with
    | [] => ([], [])
    | [m] => ([{ member := m, source := [p.member] }], [])
    | chain =>
      let body := .member (.param parameter) p.member
      ([], [⟨chain.map (·.name), Registry.mkLambda [parameter] body⟩])

/-- The plain correspondences of a mapping the other way round.  Path rules take parameters
numbered from `id`. -/
def Mapping.reversed (m : Mapping) (id : Nat) : Mapping :=
  let parts := m.rules.zipIdx.map fun (p, i) => p.reversed ⟨id + i, "d", m.destination⟩
  { source := m.destination
    destination := m.source
    rules := parts.flatMap (·.1)
    pathRules := parts.flatMap (·.2)
    bases := m.bases.map TyPair.reversed
    derived := m.derived.map TyPair.reversed }

end Recast
