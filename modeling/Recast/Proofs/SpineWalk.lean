import Recast.Proofs.DepthLimit
import Recast.Proofs.Unchanged

/-! # Chains of binary operators

A chain of binary operators nested on the left is recast in one loop that counts
as one level.  The plain rule goes into the left operand as into any other
expression; without a limit both do the same.

- `Recaster.recastPlainly` — plain recursion without a limit.
- `Recaster.recastWithin_upToLimit_plainly` — recasting reports the limit or runs
  as plain recursion does.
- `Recaster.spine_stops` — a chain reports the limit only at one of its operands.
- `Recaster.recastWithin_plainly` — both together, for every number of levels.
-/

namespace Recast

/-! ## §1  The operands of a chain, and paths without a limit -/

namespace Expr

/-- The operands of a binary node in the order they are recast, the left one unless it is
done already. -/
def bothOperands (left right : Expr) (leftDone : Bool) : List Expr :=
  if leftDone then [right]
  else if left.isConstant && !right.isConstant then [right, left]
  else [left, right]

/-- The operands along a chain of binary nodes nested on the left: the innermost left one, and
the right one and the conversion of each node. -/
def chainOperands : Expr → List Expr
  | .binary _ left right conversion _ =>
    if left.isBinary then
      chainOperands left ++ (bothOperands left right true ++ conversion.toList)
    else bothOperands left right false ++ conversion.toList
  | e => [e]

end Expr

namespace Configuration

variable {c : Configuration}

/-- A path takes at most as many steps as it has segments. -/
theorem followPath_of_length_le {limit limit' : Nat} {fullPath : String} :
    ∀ {budget budget' : Nat} {model data : Ty} {path : List String} {steps : List DataStep},
      path.length ≤ budget → path.length ≤ budget' →
        c.followPath limit fullPath budget model data path steps =
          c.followPath limit' fullPath budget' model data path steps
  | _, _, _, _, [], _, _, _ => by rw [followPath, followPath]
  | 0, _, _, _, _ :: _, _, h, _ => absurd h (by simp)
  | _ + 1, 0, _, _, _ :: _, _, _, h => absurd h (by simp)
  | budget + 1, budget' + 1, model, data, name :: rest, steps, h, h' => by
      rw [followPath, followPath]
      split
      · rfl
      · refine bind_congr fun a => ?_
        have hrest : (rest.drop a.taken).length ≤ rest.length := by simp
        have hlength : rest.length ≤ budget := by simpa using h
        have hlength' : rest.length ≤ budget' := by simpa using h'
        exact followPath_of_length_le (Nat.le_trans hrest hlength) (Nat.le_trans hrest hlength')

theorem dataPath_upToLimit_length {model data : Ty} {path : List String} {d : Nat} :
    UpToLimit (c.dataPath model data path d) (c.dataPath model data path path.length) := by
  rcases Nat.le_total d path.length with h | h
  · exact dataPath_upToLimit h
  · unfold dataPath
    rw [followPath_of_length_le h (Nat.le_refl _)]
    exact .refl _

end Configuration

/-! ## §2  Plain recursion -/

namespace Recaster

section Plain

variable (w : Recaster) (self : Expr → RecastM Outcome)

/-- The plain rule for a binary node: the operands, a constant after an operand that is none,
then the conversion, then the node built again if one of them has changed. -/
def plainBinary (op : BinaryOp) (left right : Expr) (conversion : Option Expr) :
    RecastM Outcome := do
  let (l, r) ←
    if left.isConstant && !right.isConstant then do
      let r ← self right
      let l ← self left
      pure (l, r)
    else do
      let l ← self left
      let r ← self right
      pure (l, r)
  let (conversion', conversionKept) ← optional self conversion
  if l.isKept && r.isKept && conversionKept then pure .kept
  else .made <$> RecastM.ofChecked (w.types.mkBinary op (l.on left) (r.on right) conversion')

def plainNode (e : Expr) : RecastM Outcome :=
  match e with
  | .binary op left right conversion _ => w.plainBinary self op left right conversion
  | e => w.node self e

end Plain

/-- Recasting without a limit: as many levels as the expression has, and for each path as many
steps as it has segments. -/
def recastPlainly (w : Recaster) (e : Expr) : RecastM Outcome :=
  (w.withLimit e.chainNames.length).plainNode
    (fun c => if c.size < e.size then recastPlainly w c else pure .kept) e
termination_by e.size

variable {w : Recaster} {self self' : Expr → RecastM Outcome}

/-- The plain rule is the one for a node whose left operand is not done yet. -/
theorem plainBinary_eq {op : BinaryOp} {left right : Expr} {conversion : Option Expr} :
    w.plainBinary self op left right conversion =
      w.binaryNode self op left right conversion none := by
  unfold plainBinary binaryNode operands
  split <;> simp only [bind_assoc, pure_bind]

theorem congruence_eq : Congruence fun x y => x = y where
  refl _ := rfl
  bind hx hf := by rw [hx, funext hf]

theorem plainNode_congr {e : Expr} {d : Nat} (hself : ∀ c, c.size < e.size → self c = self' c) :
    (w.withLimit d).plainNode self e = (w.withLimit d).plainNode self' e := by
  by_cases hbinary : e.isBinary = true
  · cases e with
    | binary op l r c t =>
        show (w.withLimit d).plainBinary self op l r c = (w.withLimit d).plainBinary self' op l r c
        have hchild : ∀ x ∈ (Expr.binary op l r c t).children, self x = self' x := fun x hx =>
          hself x (Expr.size_lt_of_child hx)
        rw [plainBinary_eq, plainBinary_eq]
        exact binaryNode_congr congruence_eq (fun _ => hchild l (by simp [Expr.children]))
          (hchild r (by simp [Expr.children])) fun x hx => hchild x (by simp_all [Expr.children])
    | _ => cases hbinary
  · have hnode : (w.withLimit d).node self e = (w.withLimit d).node self' e :=
      node_congr congruence_eq (by simpa using hbinary) hself fun _ => rfl
    cases e with
    | binary op l r c t => exact absurd rfl hbinary
    | _ => exact hnode

theorem recastPlainly_eq (e : Expr) :
    w.recastPlainly e = (w.withLimit e.chainNames.length).plainNode w.recastPlainly e := by
  rw [recastPlainly]
  exact plainNode_congr fun c hc => if_pos hc

/-! ## §3  The loop and the recursion -/

theorem isConstant_of_isBinary {e : Expr} (h : e.isBinary = true) : e.isConstant = false := by
  cases e with
  | binary op l r c t => rfl
  | _ => cases h

/-- The loop goes along a chain as plain recursion goes down into its left operands. -/
theorem spine_upToLimit (hself : ∀ x, UpToLimit (self x) (w.recastPlainly x)) {e : Expr} :
    UpToLimit (w.spine self e) (w.recastPlainly e) := by
  fun_induction spine w self e with
  | case1 op left right conversion t hleft ih =>
      have hplain : w.recastPlainly (.binary op left right conversion t) =
          w.recastPlainly left >>= fun l =>
            w.binaryNode w.recastPlainly op left right conversion (some l) := by
        rw [recastPlainly_eq]
        show w.plainBinary w.recastPlainly op left right conversion = _
        rw [plainBinary_eq]
        simp only [binaryNode, operands, isConstant_of_isBinary hleft, Bool.false_and,
          Bool.false_eq_true, if_false, bind_assoc, pure_bind]
      rw [hplain]
      exact .bind ih fun l => binaryNode_congr UpToLimit.congruence (fun h => by cases h)
        (hself right) fun c _ => hself c
  | case2 op left right conversion t hleft =>
      rw [recastPlainly_eq]
      show UpToLimit _ (w.plainBinary w.recastPlainly op left right conversion)
      rw [plainBinary_eq]
      exact binaryNode_congr UpToLimit.congruence (fun _ => hself left) (hself right)
        fun c _ => hself c
  | case3 e _ => exact hself e

theorem recastWithin_upToLimit_plainly : ∀ (n : Nat) (e : Expr),
    UpToLimit (w.recastWithin n e) (w.recastPlainly e)
  | 0, _ => .throw
  | n + 1, e => by
      have ih := recastWithin_upToLimit_plainly n
      rw [recastWithin]
      cases e with
      | binary op l r c t => exact spine_upToLimit ih
      | _ =>
        rw [recastPlainly_eq]
        exact node_congr (d := w.options.maxDepth) UpToLimit.congruence rfl (fun c _ => ih c)
          fun data => .onTable Configuration.dataPath_upToLimit_length

/-! ## §4  Where a chain reports the limit -/

/-- Recasting the expressions one after another ends well. -/
def Passes (self : Expr → RecastM Outcome) (es : List Expr) (s s' : RecastState) : Prop :=
  ∃ r, Returns (all self es) s r s'

/-- Recasting the expressions one after another reports the limit at one of them. -/
def StopsIn (self : Expr → RecastM Outcome) (es : List Expr) (s : RecastState) : Prop :=
  ∃ before x after s', es = before ++ x :: after ∧ Passes self before s s' ∧
    ReportsLimit (self x) s'

section Stops

variable {xs ys : List Expr} {s s' s'' : RecastState}

theorem passes_nil : Passes self [] s s' ↔ s = s' := by
  simp [Passes, all]

theorem passes_cons {x : Expr} : Passes self (x :: xs) s s'' ↔
    ∃ o s', Returns (self x) s o s' ∧ Passes self xs s' s'' := by
  constructor
  · rintro ⟨r, h⟩
    simp only [all, returns_bind] at h
    obtain ⟨o, s₁, ho, r', s₂, hr', h⟩ := h
    obtain ⟨-, rfl⟩ := returns_pure.mp h
    exact ⟨o, s₁, ho, r', hr'⟩
  · rintro ⟨o, s₁, ho, r', hr'⟩
    refine ⟨(o.on x :: r'.1, o.isKept && r'.2), ?_⟩
    simp only [all, returns_bind]
    exact ⟨o, s₁, ho, r', s'', hr', returns_pure.mpr ⟨rfl, rfl⟩⟩

theorem Passes.append (hx : Passes self xs s s') (hy : Passes self ys s' s'') :
    Passes self (xs ++ ys) s s'' := by
  induction xs generalizing s with
  | nil => exact passes_nil.mp hx ▸ hy
  | cons x xs ih =>
      obtain ⟨o, s₁, ho, hx⟩ := passes_cons.mp hx
      exact passes_cons.mpr ⟨o, s₁, ho, ih hx⟩

theorem passes_singleton {x : Expr} {o : Outcome} (h : Returns (self x) s o s') :
    Passes self [x] s s' := passes_cons.mpr ⟨o, s', h, passes_nil.mpr rfl⟩

theorem StopsIn.head {x : Expr} (h : ReportsLimit (self x) s) : StopsIn self (x :: xs) s :=
  ⟨[], x, xs, s, rfl, passes_nil.mpr rfl, h⟩

theorem StopsIn.left (h : StopsIn self xs s) : StopsIn self (xs ++ ys) s := by
  obtain ⟨before, x, after, s', rfl, hbefore, hx⟩ := h
  exact ⟨before, x, after ++ ys, s', by simp, hbefore, hx⟩

theorem StopsIn.right (hx : Passes self xs s s') (h : StopsIn self ys s') :
    StopsIn self (xs ++ ys) s := by
  obtain ⟨before, x, after, s'', rfl, hbefore, hreport⟩ := h
  exact ⟨xs ++ before, x, after, s'', by simp, hx.append hbefore, hreport⟩

theorem operands_passes {left right : Expr} {done : Option Outcome} {lr : Outcome × Outcome}
    (h : Returns (operands self left right done) s lr s') :
    Passes self (Expr.bothOperands left right done.isSome) s s' := by
  cases done with
  | some l =>
      simp only [operands, returns_bind, returns_pure] at h
      obtain ⟨r, s₁, hr, -, rfl⟩ := h
      exact passes_singleton hr
  | none =>
      simp only [operands, Expr.bothOperands, Option.isSome_none, Bool.false_eq_true,
        if_false] at h ⊢
      split at h
      · rename_i hconstant
        simp only [returns_bind, returns_pure] at h
        obtain ⟨r, s₁, hr, l, s₂, hl, -, rfl⟩ := h
        rw [if_pos hconstant]
        exact passes_cons.mpr ⟨r, s₁, hr, passes_singleton hl⟩
      · rename_i hconstant
        simp only [returns_bind, returns_pure] at h
        obtain ⟨l, s₁, hl, r, s₂, hr, -, rfl⟩ := h
        rw [if_neg hconstant]
        exact passes_cons.mpr ⟨l, s₁, hl, passes_singleton hr⟩

theorem operands_stops {left right : Expr} {done : Option Outcome}
    (h : ReportsLimit (operands self left right done) s) :
    StopsIn self (Expr.bothOperands left right done.isSome) s := by
  cases done with
  | some l =>
      simp only [operands, reportsLimit_bind, reportsLimit_pure, and_false, exists_false,
        or_false] at h
      exact .head h
  | none =>
      simp only [operands, Expr.bothOperands, Option.isSome_none, Bool.false_eq_true,
        if_false] at h ⊢
      split at h
      · rename_i hconstant
        simp only [reportsLimit_bind, reportsLimit_pure, and_false, exists_false,
          or_false] at h
        rw [if_pos hconstant]
        rcases h with h | ⟨r, s₁, hr, h⟩
        · exact .head h
        · exact .right (passes_singleton hr) (.head h)
      · rename_i hconstant
        simp only [reportsLimit_bind, reportsLimit_pure, and_false, exists_false,
          or_false] at h
        rw [if_neg hconstant]
        rcases h with h | ⟨l, s₁, hl, h⟩
        · exact .head h
        · exact .right (passes_singleton hl) (.head h)

theorem optional_passes {e : Option Expr} {r : Option Expr × Bool}
    (h : Returns (optional self e) s r s') : Passes self e.toList s s' := by
  cases e with
  | none => exact passes_nil.mpr (returns_pure.mp h).2
  | some x =>
      simp only [optional, returns_bind, returns_pure] at h
      obtain ⟨o, s₁, ho, -, rfl⟩ := h
      exact passes_singleton ho

theorem optional_stops {e : Option Expr} (h : ReportsLimit (optional self e) s) :
    StopsIn self e.toList s := by
  cases e with
  | none => exact absurd h reportsLimit_pure
  | some x =>
      simp only [optional, reportsLimit_bind, reportsLimit_pure, and_false, exists_false,
        or_false] at h
      exact .head h

theorem not_reportsLimit_mkBinary {op : BinaryOp} {left right : Expr} {conversion : Option Expr} :
    ¬ ReportsLimit (Outcome.made <$> RecastM.ofChecked (w.types.mkBinary op left right conversion))
      s := by
  rw [map_eq_pure_bind, reportsLimit_bind]
  rintro (⟨limit, h⟩ | ⟨_, _, -, h⟩)
  · unfold Registry.mkBinary Registry.resultType at h
    split at h <;> cases h
  · exact reportsLimit_pure h

theorem binaryNode_passes {op : BinaryOp} {left right : Expr} {conversion : Option Expr}
    {done : Option Outcome} {o : Outcome}
    (h : Returns (w.binaryNode self op left right conversion done) s o s') :
    Passes self (Expr.bothOperands left right done.isSome ++ conversion.toList) s s' := by
  simp only [binaryNode, returns_bind] at h
  obtain ⟨lr, s₁, hlr, c, s₂, hc, h⟩ := h
  have hend : s₂ = s' := by
    split at h
    · exact (returns_pure.mp h).2
    · obtain ⟨e, he, -⟩ := returns_map.mp h
      exact (RecastM.returns_ofChecked.mp he).2
  exact hend ▸ (operands_passes hlr).append (optional_passes hc)

theorem binaryNode_stops {op : BinaryOp} {left right : Expr} {conversion : Option Expr}
    {done : Option Outcome}
    (h : ReportsLimit (w.binaryNode self op left right conversion done) s) :
    StopsIn self (Expr.bothOperands left right done.isSome ++ conversion.toList) s := by
  simp only [binaryNode, reportsLimit_bind] at h
  rcases h with h | ⟨lr, s₁, hlr, h | ⟨c, s₂, -, h⟩⟩
  · exact (operands_stops h).left
  · exact (optional_stops h).right (operands_passes hlr)
  · split at h
    · exact absurd h reportsLimit_pure
    · exact absurd h not_reportsLimit_mkBinary

/-- A chain ends well only after all its operands. -/
theorem spine_passes {e : Expr} {o : Outcome} (h : Returns (w.spine self e) s o s') :
    Passes self e.chainOperands s s' := by
  fun_induction spine w self e generalizing o s' with
  | case1 op left right conversion t hleft ih =>
      obtain ⟨l, s₁, hl, h⟩ := returns_bind.mp h
      rw [Expr.chainOperands, if_pos hleft]
      exact (ih hl).append (binaryNode_passes h)
  | case2 op left right conversion t hleft =>
      rw [Expr.chainOperands, if_neg hleft]
      exact binaryNode_passes h
  | case3 e hbinary =>
      rw [Expr.chainOperands]
      · exact passes_singleton h
      · exact hbinary

/-- A chain reports the limit only at one of its operands. -/
theorem spine_stops {e : Expr} (h : ReportsLimit (w.spine self e) s) :
    StopsIn self e.chainOperands s := by
  fun_induction spine w self e with
  | case1 op left right conversion t hleft ih =>
      rw [Expr.chainOperands, if_pos hleft]
      rcases reportsLimit_bind.mp h with h | ⟨l, s₁, hl, h⟩
      · exact (ih h).left
      · exact (binaryNode_stops h).right (spine_passes hl)
  | case2 op left right conversion t hleft =>
      rw [Expr.chainOperands, if_neg hleft]
      exact binaryNode_stops h
  | case3 e hbinary =>
      rw [Expr.chainOperands]
      · exact .head h
      · exact hbinary

end Stops

/-! ## §5  The chain on every number of levels -/

/-- Recasting reports the limit or runs as plain recursion does.  A chain of binary operators
reports it only when no level is left or one of its operands does a level deeper, in the state
that the operands before it lead to. -/
theorem recastWithin_plainly (w : Recaster) (n : Nat) (e : Expr) (s : RecastState) :
    (ReportsLimit (w.recastWithin n e) s ∨
      (w.recastWithin n e).run s = (w.recastPlainly e).run s) ∧
    (e.isBinary = true → ReportsLimit (w.recastWithin n e) s →
      n = 0 ∨ ∃ m, n = m + 1 ∧ StopsIn (w.recastWithin m) e.chainOperands s) := by
  refine ⟨recastWithin_upToLimit_plainly n e s, fun hbinary h => ?_⟩
  cases n with
  | zero => exact .inl rfl
  | succ m =>
      refine .inr ⟨m, rfl, ?_⟩
      cases e with
      | binary op l r c t => exact spine_stops h
      | _ => cases hbinary

/-! ### Two labels -/

end Recaster

namespace LambdaRecaster.Orders

/-- `m.Label == s` -/
def labelIs (s : String) : Expr :=
  .binary .equal (.member (.param ⟨1, "m", model⟩) label) (.const (.str s) .string) none .boolean

/-- `m.Note == s` over the order. -/
def noteIs (s : String) : Expr :=
  .binary .equal (.member (.param ⟨2, "m", order⟩) note) (.const (.str s) .string) none .boolean

/-- `m.Label == "a" || m.Label == "b"` -/
def anyLabel : Expr := .binary .orElse (labelIs "a") (labelIs "b") none .boolean

def anyNote : Expr := .binary .orElse (noteIs "a") (noteIs "b") none .boolean

def seeded : RecastState := { table := table, fresh := 2 }

end LambdaRecaster.Orders

open LambdaRecaster.Orders in
/-- Four levels are enough for the chain; with three the second comparison reports the limit. -/
theorem Recaster.recastWithin_plainly_orders :
    (∃ s', Returns (keeper.recastPlainly anyLabel) seeded (.made anyNote) s') ∧
    anyLabel.isBinary = true ∧ ReportsLimit (keeper.recastWithin 3 anyLabel) seeded ∧
    ∃ m, 3 = m + 1 ∧ StopsIn (keeper.recastWithin m) anyLabel.chainOperands seeded := by
  obtain ⟨s', hresult⟩ : ∃ s', Returns (keeper.recastWithin 4 anyLabel) seeded (.made anyNote) s' :=
    ⟨_, returns_of_run rfl⟩
  have hlimit : ReportsLimit (keeper.recastWithin 3 anyLabel) seeded := ⟨256, rfl⟩
  refine ⟨⟨s', ?_⟩, rfl, hlimit, ?_⟩
  · rcases (recastWithin_plainly keeper 4 anyLabel seeded).1 with ⟨limit, h⟩ | h
    · exact absurd (h.symm.trans (congrArg Prod.fst hresult)) (by simp)
    · exact h.symm.trans hresult
  · exact ((recastWithin_plainly keeper 3 anyLabel seeded).2 rfl hlimit).resolve_left (by decide)

end Recast
