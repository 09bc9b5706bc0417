import Recast.Config.Convention

/-! # Planning a configuration

Mappings are planned one call at a time.  A call that fails is held back, and the
first failure is reported when the plan is finished.

- `Plan.start`, `readBy`, `readFrom`, `leaveOut`, `readPathBy`,
  `inheritFrom`, `passOnTo`, `alsoReverse` — the calls; all but the first
  take the pair of the mapping they change.
- `Plan.finish` — fills in every mapping, adds the reverse ones that were asked for
  and not planned, and links derived mappings to their bases.
-/

namespace Recast

structure PlannedMapping where
  map : Mapping
  reverse : Bool := false

structure Plan where
  types : Registry
  planned : List PlannedMapping := []
  /-- Held back failures, first one first. -/
  errors : List MappingError := []

namespace Plan

variable (d : Plan)

def fail (e : MappingError) : Plan := { d with errors := d.errors ++ [e] }

/-- Starts a mapping, unless the pair has one. -/
def start (p : TyPair) : Plan :=
  if d.planned.any (·.map.pair == p) then d
  else
    let map : Mapping := { source := p.source, destination := p.destination }
    { d with planned := d.planned ++ [{ map := map }] }

def update (p : TyPair) (f : PlannedMapping → PlannedMapping) : Plan :=
  let d := d.start p
  { d with planned := d.planned.map fun x => if x.map.pair == p then f x else x }

def updateMapping (p : TyPair) (f : Mapping → Mapping) : Plan :=
  d.update p fun x => { x with map := f x.map }

/-- A rule, in place of the one the member has. -/
def putRule (p : TyPair) (rule : MemberRule) : Plan :=
  d.updateMapping p fun m =>
    { m with rules :=
        m.rules.filter (·.member.name != rule.member.name) ++ [rule] }

def putPathRule (p : TyPair) (path : PathRule) : Plan :=
  d.updateMapping p fun m =>
    { m with pathRules := m.pathRules.filter (·.path != path.path) ++ [path] }

def attempt (p : TyPair) (rule : Checked MemberRule) : Plan :=
  match rule with
  | .ok rule => d.putRule p rule
  | .error e => d.fail e

/-- The member without suggestions in its error. -/
def plainMember (t : Ty) (name : String) : Checked Member :=
  match d.types.member? t name with
  | some m => .ok m
  | none => .error (.memberNotFound (d.types.tyText t) name [])

/-- The members of a path from a type. -/
def plainPath (t : Ty) : List String → Checked (List Member)
  | [] => .ok []
  | name :: names => do
    let m ← d.plainMember t name
    let rest ← plainPath m.ty names
    pure (m :: rest)

/-! ## Calls -/

/-- Populates a member by a lambda over the source. -/
def readBy (p : TyPair) (name : String) (custom : Checked Expr) : Plan :=
  d.attempt p do
    let m ← d.types.requireMember p.destination name
    let custom ← custom
    pure { member := m, custom := some custom }

/-- Populates a member from a path of source members. -/
def readFrom (p : TyPair) (name : String) (path : List String) : Plan :=
  d.attempt p do
    let m ← d.types.requireMember p.destination name
    let chain ← d.plainPath p.source path
    pure { member := m, source := chain }

def leaveOut (p : TyPair) (name : String) : Plan :=
  d.attempt p do
    let m ← d.types.requireMember p.destination name
    pure { member := m, ignored := true }

/-- Populates a path of destination members by a lambda over the source. -/
def readPathBy (p : TyPair) (path : List String) (custom : Checked Expr) : Plan :=
  let checked : Checked PathRule := do
    let _ ← d.plainPath p.destination path
    let custom ← custom
    pure ⟨path, custom⟩
  match checked with
  | .ok rule => d.putPathRule p rule
  | .error e => d.fail e

def addOnce (pairs : List TyPair) (p : TyPair) : List TyPair :=
  if pairs.contains p then pairs else pairs ++ [p]

/-- Inherits the rules of the mapping between base types. -/
def inheritFrom (p base : TyPair) : Plan :=
  d.updateMapping p fun m => { m with bases := addOnce m.bases base }

/-- Lets the mapping between derived types inherit the rules of this one. -/
def passOnTo (p derived : TyPair) : Plan :=
  d.updateMapping p fun m => { m with derived := addOnce m.derived derived }

/-- Asks for the mapping in the other direction too. -/
def alsoReverse (p : TyPair) : Plan := d.update p fun x => { x with reverse := true }

/-! ## Building -/

/-- Adds the reverse of the mappings of `pairs`, unless their pair is taken.  Parameters are
numbered from `id`; the next free number comes back with the mappings. -/
def addReversed (maps : List Mapping) (id : Nat) : List TyPair → List Mapping × Nat
  | [] => (maps, id)
  | p :: pairs =>
    if maps.any (·.pair == p.reversed) then addReversed maps id pairs
    else match maps.find? (·.pair == p) with
      | some m =>
        addReversed (maps ++ [d.types.fill (m.reversed id)]) (id + m.rules.length) pairs
      | none => addReversed maps id pairs

/-- Every pair that some mapping names as derived, with the pair of that mapping. -/
def derivedLinks (maps : List Mapping) : List (TyPair × TyPair) :=
  maps.flatMap fun m => m.derived.map fun derived => (derived, m.pair)

def link (maps : List Mapping) (l : TyPair × TyPair) : List Mapping :=
  maps.map fun m => if m.pair == l.1 then { m with bases := addOnce m.bases l.2 } else m

/-- The configuration, and the next free parameter number. -/
def finish (id : Nat) : Checked (Configuration × Nat) :=
  match d.errors with
  | e :: _ => .error e
  | [] =>
    let drafted := d.planned.map fun x => d.types.fill x.map
    let reversible := (d.planned.filter (·.reverse)).map (·.map.pair)
    let (maps, id) := d.addReversed drafted id reversible
    .ok ({ types := d.types, maps := (derivedLinks maps).foldl link maps }, id)

end Plan

end Recast
