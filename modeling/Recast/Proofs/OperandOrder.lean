import Recast.Proofs.Binding
import Recast.Proofs.SpineWalk

/-! # The side of a constant

An operand that is no constant is recast before a constant one, whichever side it is
on.  An equality with a constant on one side is therefore recast as the equality with the
operands changed round is, only that the result has its operands changed round too.

- `Expr.swapped`, `Outcome.swapped` — the operands of a binary node changed round.
- `Recaster.assemble` — a binary node over recast operands.
- `Recaster.returns_constantLeft`, `Recaster.returns_constantRight` — both orders take the
  same steps before the node is built.
- `Recaster.recastWithin_swapped` — equalities with a constant on either side.
-/

namespace Recast

def Expr.swapped : Expr → Expr
  | .binary op l r conversion t => .binary op r l conversion t
  | e => e

def Outcome.swapped : Outcome → Outcome
  | .kept => .kept
  | .made e => .made e.swapped

namespace Registry

variable {r : Registry}

theorem areComparable_comm (a b : Ty) : r.areComparable a b = r.areComparable b a := by
  unfold areComparable
  rw [Bool.eq_iff_iff]
  simp only [Bool.or_eq_true, Bool.and_eq_true, beq_iff_eq]
  grind

/-- Equality asks the same of its operands in either order. -/
theorem mkBinary_swapped {op : BinaryOp} (hop : op = .equal ∨ op = .notEqual) {a b e : Expr}
    {conversion : Option Expr} (h : r.mkBinary op a b conversion = .ok e) :
    r.mkBinary op b a conversion = .ok e.swapped ∧ ∃ t, e = .binary op a b conversion t := by
  have hsame : r.resultType? op b.ty a.ty = r.resultType? op a.ty b.ty := by
    rcases hop with rfl | rfl <;> simp only [resultType?, areComparable_comm]
  unfold mkBinary resultType at h ⊢
  rw [hsame]
  cases ht : r.resultType? op a.ty b.ty with
  | none =>
      rw [ht] at h
      cases h
  | some t =>
      rw [ht] at h
      cases h
      exact ⟨rfl, t, rfl⟩

end Registry

namespace Recaster

variable {w : Recaster} {self : Expr → RecastM Outcome} {op : BinaryOp} {c e : Expr}
  {conversion : Option Expr} {t : Ty} {s s' : RecastState} {o : Outcome}

/-! ## §1  The steps of a binary node -/

/-- A binary node over recast operands, kept if nothing has changed. -/
def assemble (w : Recaster) (op : BinaryOp) (left right : Expr) (l r : Outcome)
    (conversion : Option Expr × Bool) : RecastM Outcome :=
  if l.isKept && r.isKept && conversion.2 then pure .kept
  else .made <$> RecastM.ofChecked (w.types.mkBinary op (l.on left) (r.on right) conversion.1)

/-- With the operands changed round the node comes out changed round. -/
theorem assemble_swapped (hop : op = .equal ∨ op = .notEqual) {left right : Expr} {l r : Outcome}
    {k : Option Expr × Bool} (h : Returns (w.assemble op left right l r k) s o s') :
    Returns (w.assemble op right left r l k) s o.swapped s' := by
  have hkept : (r.isKept && l.isKept && k.2) = (l.isKept && r.isKept && k.2) := by
    rw [Bool.and_comm r.isKept]
  unfold assemble at h ⊢
  rw [hkept]
  rw [returns_keptOrMade] at h ⊢
  obtain ⟨rfl, ⟨hkept, rfl⟩ | ⟨hchanged, e, he, rfl⟩⟩ := h
  · exact ⟨rfl, .inl ⟨hkept, rfl⟩⟩
  · exact ⟨rfl, .inr ⟨hchanged, e.swapped, (Registry.mkBinary_swapped hop he).1, rfl⟩⟩

/-- What comes out is a node of the operator, and its operands are those that come out changed
round. -/
theorem assemble_on (hop : op = .equal ∨ op = .notEqual) {left right : Expr} {l r : Outcome}
    {k : Option Expr × Bool} (h : Returns (w.assemble op left right l r k) s o s') :
    ∃ a b conversion' t', o.on (.binary op left right conversion t) = .binary op a b conversion' t' ∧
      o.swapped.on (.binary op right left conversion t) = .binary op b a conversion' t' := by
  obtain ⟨-, ⟨-, rfl⟩ | ⟨-, e, he, rfl⟩⟩ := returns_keptOrMade.mp h
  · exact ⟨left, right, conversion, t, rfl, rfl⟩
  · obtain ⟨-, t', rfl⟩ := Registry.mkBinary_swapped hop he
    exact ⟨_, _, _, t', rfl, rfl⟩

/-- The operand that is no constant, then the constant one, then the conversion. -/
def inTurn (self : Expr → RecastM Outcome) (first : RecastM Outcome) (c : Expr)
    (conversion : Option Expr) : RecastM (Outcome × Outcome × (Option Expr × Bool)) := do
  let x ← first
  let y ← self c
  let k ← optional self conversion
  pure (x, y, k)

/-- A left operand, along which a chain of binary nodes goes on. -/
def leading (w : Recaster) (self : Expr → RecastM Outcome) (e : Expr) : RecastM Outcome :=
  if e.isBinary then w.spine self e else self e

theorem binaryNode_eq {left right : Expr} {done : Option Outcome} :
    w.binaryNode self op left right conversion done = (do
      let lr ← operands self left right done
      let k ← optional self conversion
      w.assemble op left right lr.1 lr.2 k) := rfl

/-- A constant on the left comes after the other operand. -/
theorem spine_constantLeft (hc : c.isConstant = true) (he : e.isConstant = false) :
    w.spine self (.binary op c e conversion t) =
      inTurn self (self e) c conversion >>= fun a => w.assemble op c e a.2.1 a.1 a.2.2 := by
  have hbinary : c.isBinary = false := by
    cases c with
    | binary => cases hc
    | _ => rfl
  rw [spine, hbinary, if_neg Bool.false_ne_true, binaryNode_eq]
  simp only [operands, inTurn, hc, he, Bool.not_false, Bool.and_self, if_true, bind_assoc,
    pure_bind]

/-- A constant on the right comes second as it stands. -/
theorem spine_constantRight (he : e.isConstant = false) :
    w.spine self (.binary op e c conversion t) =
      inTurn self (w.leading self e) c conversion >>= fun a =>
        w.assemble op e c a.1 a.2.1 a.2.2 := by
  rw [spine, leading]
  by_cases hbinary : e.isBinary = true
  · rw [if_pos hbinary, if_pos hbinary]
    simp only [binaryNode_eq, operands, inTurn, bind_assoc, pure_bind]
  · rw [if_neg hbinary, if_neg hbinary, binaryNode_eq]
    simp only [operands, inTurn, he, Bool.false_and, Bool.false_eq_true, if_false, bind_assoc,
      pure_bind]

/-! ## §2  Both orders -/

section Orders

variable {n : Nat}

theorem recastWithin_constantLeft (hc : c.isConstant = true) (he : e.isConstant = false) :
    w.recastWithin (n + 1) (.binary op c e conversion t) =
      inTurn (w.recastWithin n) (w.recastWithin n e) c conversion >>= fun a =>
        w.assemble op c e a.2.1 a.1 a.2.2 :=
  spine_constantLeft (t := t) hc he

theorem recastWithin_constantRight (he : e.isConstant = false) :
    w.recastWithin (n + 1) (.binary op e c conversion t) =
      inTurn (w.recastWithin n) (w.leading (w.recastWithin n) e) c conversion >>= fun a =>
        w.assemble op e c a.1 a.2.1 a.2.2 :=
  spine_constantRight (t := t) he

/-- A chain has a level more on the left than on the right. -/
theorem recastWithin_upToLimit_leading (e : Expr) :
    UpToLimit (w.recastWithin n e) (w.leading (w.recastWithin n) e) := by
  unfold leading
  split
  · rename_i hbinary
    have hdeeper : UpToLimit (w.recastWithin n e) (w.recastWithin (n + 1) e) :=
      recastWithin_upToLimit (w := w) (Nat.le_refl w.options.maxDepth) (Nat.le_succ n) e
    cases e with
    | binary => exact hdeeper
    | _ => cases hbinary
  · exact .refl _

/-- As long as the limit is enough for the operand on the right, it does the same on the left. -/
theorem inTurn_leading (hc : c.isConstant = true) (he : e.isConstant = false)
    (hlimit : ¬ ReportsLimit (w.recastWithin (n + 1) (.binary op c e conversion t)) s) :
    (inTurn (w.recastWithin n) (w.recastWithin n e) c conversion).run s =
      (inTurn (w.recastWithin n) (w.leading (w.recastWithin n) e) c conversion).run s := by
  have hsides : UpToLimit (inTurn (w.recastWithin n) (w.recastWithin n e) c conversion)
      (inTurn (w.recastWithin n) (w.leading (w.recastWithin n) e) c conversion) :=
    .bind (recastWithin_upToLimit_leading e) fun _ => .refl _
  refine (hsides s).resolve_left fun h => hlimit ?_
  rw [recastWithin_constantLeft hc he]
  exact reportsLimit_bind.mpr (.inl h)

theorem returns_constantLeft (hc : c.isConstant = true) (he : e.isConstant = false) :
    Returns (w.recastWithin (n + 1) (.binary op c e conversion t)) s o s' ↔
      ∃ a s₁, Returns (inTurn (w.recastWithin n) (w.recastWithin n e) c conversion) s a s₁ ∧
        Returns (w.assemble op c e a.2.1 a.1 a.2.2) s₁ o s' := by
  rw [recastWithin_constantLeft hc he]
  exact returns_bind

theorem returns_constantRight (hc : c.isConstant = true) (he : e.isConstant = false)
    (hlimit : ¬ ReportsLimit (w.recastWithin (n + 1) (.binary op c e conversion t)) s) :
    Returns (w.recastWithin (n + 1) (.binary op e c conversion t)) s o s' ↔
      ∃ a s₁, Returns (inTurn (w.recastWithin n) (w.recastWithin n e) c conversion) s a s₁ ∧
        Returns (w.assemble op e c a.1 a.2.1 a.2.2) s₁ o s' := by
  rw [recastWithin_constantRight he]
  refine returns_bind.trans (exists_congr fun a => exists_congr fun s₁ => and_congr_left' ?_)
  rw [Returns, Returns, inTurn_leading hc he hlimit]

end Orders

/-- **The side of a constant does not matter.**  If a level limit is enough for an equality with
the constant on the left, the equality with the operands changed round is recast exactly when it
is, in the same state, and to the same operands changed round. -/
theorem recastWithin_swapped (w : Recaster) (hop : op = .equal ∨ op = .notEqual)
    (hc : c.isConstant = true) (he : e.isConstant = false) (conversion : Option Expr) (t : Ty)
    (n : Nat) (s : RecastState)
    (hlimit : ¬ ReportsLimit (w.recastWithin n (.binary op c e conversion t)) s) :
    ((∃ o s', Returns (w.recastWithin n (.binary op c e conversion t)) s o s') ↔
      ∃ o s', Returns (w.recastWithin n (.binary op e c conversion t)) s o s') ∧
    ∀ o s', Returns (w.recastWithin n (.binary op c e conversion t)) s o s' →
      Returns (w.recastWithin n (.binary op e c conversion t)) s o.swapped s' ∧
      ∃ l r conversion' t', o.on (.binary op c e conversion t) = .binary op l r conversion' t' ∧
        o.swapped.on (.binary op e c conversion t) = .binary op r l conversion' t' := by
  cases n with
  | zero => exact absurd ⟨_, rfl⟩ hlimit
  | succ n =>
    simp only [returns_constantLeft hc he, returns_constantRight hc he hlimit]
    refine ⟨⟨?_, ?_⟩, ?_⟩
    · rintro ⟨o, s', a, s₁, ha, ho⟩
      exact ⟨o.swapped, s', a, s₁, ha, assemble_swapped hop ho⟩
    · rintro ⟨o, s', a, s₁, ha, ho⟩
      exact ⟨o.swapped, s', a, s₁, ha, assemble_swapped hop ho⟩
    · rintro o s' ⟨a, s₁, ha, ho⟩
      exact ⟨⟨a, s₁, ha, assemble_swapped hop ho⟩, assemble_on hop ho⟩

/-! ### A status with a fallback

The model's statuses are variants, the ticket's are their names.  The operand that is no constant
is itself a chain, and its types have to be known before the constant becomes a text. -/

namespace Fallback

def status : Ty := .declared 0

def ticket : Ty := .declared 1

def model : Ty := .declared 2

def registry : Registry :=
  { declarations := [.enumeration "Status" ["Open", "Closed"],
      .record "Ticket" none [⟨"Status", .string⟩, ⟨"Backup", .string⟩],
      .record "TicketModel" none [⟨"Status", .nullable status⟩, ⟨"Backup", .nullable status⟩]] }

def mapping : Mapping :=
  { source := ticket, destination := model
    rules := [{ member := ⟨"Status", .nullable status⟩, source := [⟨"Status", .string⟩] },
      { member := ⟨"Backup", .nullable status⟩, source := [⟨"Backup", .string⟩] }] }

def config : Configuration := ⟨registry, [mapping]⟩

def recaster : Recaster := { config := config, mapper := config.valueAs, options := {} }

def seeded : RecastState := { table := ⟨[(model, ticket)]⟩, fresh := 2 }

/-- `Convert(Open)` -/
def opened : Expr := .unary .convert (.const (.enum "Open") status) (.nullable status)

/-- `m.Status ?? m.Backup` -/
def current (m : Parameter) (t : Ty) : Expr :=
  .binary .coalesce (.member (.param m) ⟨"Status", t⟩) (.member (.param m) ⟨"Backup", t⟩) none t

/-- `Convert(Open) == (m.Status ?? m.Backup)` -/
def isOpen : Expr :=
  .binary .equal opened (current ⟨1, "m", model⟩ (.nullable status)) none .boolean

def isOpenOnTicket : Expr :=
  .binary .equal (.const (.str "Open") .string) (current ⟨2, "m", ticket⟩ .string) none .boolean

end Fallback

open Fallback in
theorem recastWithin_swapped_fallback :
    opened.isConstant = true ∧ (current ⟨1, "m", model⟩ (.nullable status)).isConstant = false ∧
    ¬ ReportsLimit (recaster.recastWithin 4 isOpen) seeded ∧
    ∃ s', Returns (recaster.recastWithin 4 isOpen) seeded (.made isOpenOnTicket) s' ∧
      Returns (recaster.recastWithin 4 isOpen.swapped) seeded (.made isOpenOnTicket.swapped) s' := by
  obtain ⟨s', hresult⟩ :
      ∃ s', Returns (recaster.recastWithin 4 isOpen) seeded (.made isOpenOnTicket) s' :=
    ⟨_, returns_of_run rfl⟩
  have hlimit : ¬ ReportsLimit (recaster.recastWithin 4 isOpen) seeded := by
    rintro ⟨limit, h⟩
    rw [hresult] at h
    cases h
  have hconstant : opened.isConstant = true := rfl
  have hother : (current ⟨1, "m", model⟩ (.nullable status)).isConstant = false := rfl
  exact ⟨hconstant, hother, hlimit, s', hresult,
    ((recastWithin_swapped recaster (.inl rfl) hconstant hother none .boolean 4 seeded hlimit).2 _ _
      hresult).1⟩

end Recaster

end Recast
