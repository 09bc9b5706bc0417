import Recast.Config.Basic

/-! # Inherited rules

A mapping takes from its bases what it does not settle itself.

- `searchBases` — the mapping and its bases are asked in turn, each once, a mapping
  before its bases and the bases in the order they were included.
- `memberRule?`, `pathRule?`, `allRules` — settings with inherited ones.
- `onlySource`, `validate` — what is configured for a destination, and
  whether every destination member is settled.
-/

namespace Recast

namespace Configuration

variable (c : Configuration)

/-- How many mappings can be waiting in a search: every link is followed at most once. -/
def linkCount : Nat := total (c.maps.map (·.bases.length))

/-- Asks the pending mappings, the first one first, and puts the bases of one that has no
answer before the rest.  A mapping that was asked before is passed over. -/
def searchPending {α : Type} (ask : Mapping → Option α) :
    Nat → List Mapping → List TyPair → Option α
  | 0, _, _ => none
  | _, [], _ => none
  | n + 1, m :: pending, seen =>
    if seen.contains m.pair then searchPending ask n pending seen
    else match ask m with
      | some found => some found
      | none =>
        searchPending ask n (m.bases.filterMap c.mappingOf? ++ pending) (m.pair :: seen)

def searchBases {α : Type} (ask : Mapping → Option α) (m : Mapping) : Option α :=
  c.searchPending ask (m.bases.length + c.linkCount + 1) [m] []

/-- The settled rule for a member, inherited if need be; else the mapping's own. -/
def memberRule? (m : Mapping) (name : String) : Option MemberRule :=
  (c.searchBases (fun m => (m.ownRule? name).filter (·.isSettled)) m).or (m.ownRule? name)

def pathRule? (m : Mapping) (path : List String) : Option PathRule :=
  c.searchBases (·.ownPathRule? path) m

/-- The rules of a mapping, with inherited ones for members it does not settle. -/
def allRules (m : Mapping) : List MemberRule :=
  m.rules.filterMap fun p => c.memberRule? m p.member.name

/-- The only type configured to map to a destination; none if there is no such type. -/
def onlySource (destination : Ty) : Checked (Option Ty) :=
  match (c.maps.filter (·.destination == destination)).map (·.source) with
  | [] => .ok none
  | [single] => .ok (some single)
  | many => .error (.ambiguousDestination (c.types.tyText destination)
      (", ".intercalate (many.map c.types.tyText)))

/-- Destination members neither mapped nor ignored. -/
def unmapped : List String :=
  c.maps.flatMap fun m => ((c.allRules m).filter fun p => !p.isSettled).map fun p =>
    c.types.tyText m.destination ++ "." ++ p.member.name

def validate : Checked Unit :=
  match c.unmapped with
  | [] => .ok ()
  | names => .error (.unmappedMembers names)

end Configuration

end Recast
