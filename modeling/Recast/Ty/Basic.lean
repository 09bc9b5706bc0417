import Recast.Ty.Literal

/-! # Types

Types are plain values: two types are the same exactly when they are built from
the same parts.  Records, enumerations and open generic records are declared
(`Recast.Ty.Registry`) and stand here as the number of their declaration, so
that two declarations of one name stay apart.

- `Ty`, `Member` — the types, and named members of a type.
- `Ty.beq_iff` — structural comparison decides equality.
- `Ty.size` — the number of nodes, an upper bound for every walk into a type.
-/

namespace Recast

/-- The sequence containers. -/
inductive SeqKind where
  | list | enumerable | queryable
  deriving DecidableEq, Repr, Inhabited

def SeqKind.name : SeqKind → String
  | list => "List"
  | enumerable => "IEnumerable"
  | queryable => "IQueryable"

mutual

inductive Ty where
  | object
  | void
  | literal (l : Literal)
  | nullable (t : Ty)
  /-- Generic parameter by position. -/
  | param (i : Nat)
  /-- A declared enumeration, record or open generic record. -/
  | declared (id : Nat)
  /-- A generic record closed over arguments. -/
  | inst (generic : Nat) (args : List Ty)
  /-- Anonymous record with ordered members. -/
  | anonymous (members : List Member)
  | array (element : Ty)
  | seq (kind : SeqKind) (element : Ty)
  | dictionary (key value : Ty)
  | keyValue (key value : Ty)
  /-- Delegate with parameter types and return type. -/
  | func (params : List Ty) (ret : Ty)
  /-- Quoted expression of a delegate type. -/
  | expression (delegate : Ty)

/-- A named member of a type. -/
structure Member where
  name : String
  ty : Ty

end

instance : Inhabited Ty := ⟨.object⟩
instance : Inhabited Member := ⟨⟨"", .object⟩⟩

namespace Ty

abbrev boolean : Ty := .literal .boolean
abbrev int32 : Ty := .literal .int32
abbrev string : Ty := .literal .string
abbrev dateTime : Ty := .literal .dateTime
abbrev timeSpan : Ty := .literal .timeSpan

/-! ## Comparison -/

mutual

def beq : Ty → Ty → Bool
  | .object, .object => true
  | .void, .void => true
  | .literal l, .literal l' => l == l'
  | .nullable t, .nullable t' => beq t t'
  | .param i, .param j => i == j
  | .declared i, .declared j => i == j
  | .inst g ts, .inst g' ts' => g == g' && beqAll ts ts'
  | .anonymous ms, .anonymous ms' => beqMembers ms ms'
  | .array t, .array t' => beq t t'
  | .seq k t, .seq k' t' => k == k' && beq t t'
  | .dictionary k v, .dictionary k' v' => beq k k' && beq v v'
  | .keyValue k v, .keyValue k' v' => beq k k' && beq v v'
  | .func ps r, .func ps' r' => beqAll ps ps' && beq r r'
  | .expression t, .expression t' => beq t t'
  | _, _ => false

def beqAll : List Ty → List Ty → Bool
  | [], [] => true
  | t :: ts, t' :: ts' => beq t t' && beqAll ts ts'
  | _, _ => false

def beqMembers : List Member → List Member → Bool
  | [], [] => true
  | ⟨n, t⟩ :: ms, ⟨n', t'⟩ :: ms' => n == n' && beq t t' && beqMembers ms ms'
  | _, _ => false

end

mutual

theorem beq_iff : ∀ a b : Ty, beq a b = true ↔ a = b
  | .object, b => by cases b <;> simp [beq]
  | .void, b => by cases b <;> simp [beq]
  | .literal _, b => by cases b <;> simp [beq]
  | .nullable t, b => by cases b <;> simp [beq, beq_iff t]
  | .param _, b => by cases b <;> simp [beq]
  | .declared _, b => by cases b <;> simp [beq]
  | .inst _ ts, b => by cases b <;> simp [beq, beqAll_iff ts]
  | .anonymous ms, b => by cases b <;> simp [beq, beqMembers_iff ms]
  | .array t, b => by cases b <;> simp [beq, beq_iff t]
  | .seq _ t, b => by cases b <;> simp [beq, beq_iff t]
  | .dictionary k v, b => by cases b <;> simp [beq, beq_iff k, beq_iff v]
  | .keyValue k v, b => by cases b <;> simp [beq, beq_iff k, beq_iff v]
  | .func ps r, b => by cases b <;> simp [beq, beqAll_iff ps, beq_iff r]
  | .expression t, b => by cases b <;> simp [beq, beq_iff t]

theorem beqAll_iff : ∀ as bs : List Ty, beqAll as bs = true ↔ as = bs
  | [], bs => by cases bs <;> simp [beqAll]
  | a :: as, bs => by cases bs <;> simp [beqAll, beq_iff a, beqAll_iff as]

theorem beqMembers_iff : ∀ as bs : List Member, beqMembers as bs = true ↔ as = bs
  | [], bs => by cases bs <;> simp [beqMembers]
  | ⟨n, t⟩ :: as, bs => by
      cases bs with
      | nil => simp [beqMembers]
      | cons b bs => cases b; simp [beqMembers, beq_iff t, beqMembers_iff as]

end

instance : DecidableEq Ty := fun a b =>
  if h : beq a b = true then isTrue ((beq_iff a b).1 h)
  else isFalse fun e => h ((beq_iff a b).2 e)

/-! ## Size -/

mutual

def size : Ty → Nat
  | .object | .void | .literal _ | .param _ | .declared _ => 1
  | .nullable t | .array t | .seq _ t | .expression t => size t + 1
  | .inst _ ts => sizeAll ts + 1
  | .anonymous ms => sizeMembers ms + 1
  | .dictionary k v | .keyValue k v => size k + size v + 1
  | .func ps r => sizeAll ps + size r + 1

def sizeAll : List Ty → Nat
  | [] => 0
  | t :: ts => size t + sizeAll ts

def sizeMembers : List Member → Nat
  | [] => 0
  | ⟨_, t⟩ :: ms => size t + sizeMembers ms

end

end Ty

/-- The sum of sizes. -/
def total : List Nat → Nat
  | [] => 0
  | n :: ns => n + total ns

instance : DecidableEq Member := fun a b =>
  if h : a.name = b.name ∧ a.ty = b.ty then isTrue (by cases a; cases b; simp_all)
  else isFalse fun e => h (by subst e; exact ⟨rfl, rfl⟩)

/-- A source type and a destination type. -/
structure TyPair where
  source : Ty
  destination : Ty
  deriving DecidableEq, Inhabited

def TyPair.reversed (p : TyPair) : TyPair := ⟨p.destination, p.source⟩

end Recast
