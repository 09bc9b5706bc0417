import Recast.Proofs.Coupling
import Recast.Proofs.TypeSoundness

/-! # The depth limit is only a guard

The limit is tested where recasting goes one level deeper and where a path is
followed one step further.  Two runs that differ in it go side by side until
the one with the lower limit reports it, so every other ending is the same.

- `UpToLimit` — the first computation reports the limit or runs as the second.
- `Congruence` — what relates two runs as soon as it relates their parts.  Every such
  relation is a `Coupling`, so it relates the rules for nodes.
- `LambdaRecaster.recast_withLimit` — whatever recasting ends with other than
  the limit, it ends with under every higher limit, in the same state.
-/

namespace Recast

/-! ## §1  Running up to the limit -/

/-- The computation ends with the error for the limit. -/
def ReportsLimit {σ α : Type} (x : ExceptT MappingError (StateM σ) α) (s : σ) : Prop :=
  ∃ limit, (x.run s).1 = .error (.recursionLimit limit)

/-- From every state the first computation reports the limit or runs exactly as the second. -/
def UpToLimit {σ α : Type} (x y : ExceptT MappingError (StateM σ) α) : Prop :=
  ∀ s, ReportsLimit x s ∨ x.run s = y.run s

section Reports

variable {σ α β : Type} {s : σ}

@[simp] theorem reportsLimit_pure {a : α} :
    ¬ ReportsLimit (pure a : ExceptT MappingError (StateM σ) α) s := by
  rintro ⟨limit, h⟩
  cases h

theorem reportsLimit_bind {x : ExceptT MappingError (StateM σ) α}
    {f : α → ExceptT MappingError (StateM σ) β} :
    ReportsLimit (x >>= f) s ↔
      ReportsLimit x s ∨ ∃ a s', Returns x s a s' ∧ ReportsLimit (f a) s' := by
  simp only [ReportsLimit, Returns, run_bind]
  rcases x.run s with ⟨_ | a, s'⟩
  · constructor
    · rintro ⟨limit, h⟩
      cases h
      exact .inl ⟨limit, rfl⟩
    · rintro (⟨limit, h⟩ | ⟨_, _, h, -⟩)
      · cases h
        exact ⟨limit, rfl⟩
      · cases h
  · constructor
    · exact fun h => .inr ⟨a, s', rfl, h⟩
    · rintro (⟨limit, h⟩ | ⟨_, _, h, hf⟩)
      · cases h
      · cases h
        exact hf

end Reports

namespace UpToLimit

variable {σ α β : Type} {x y : ExceptT MappingError (StateM σ) α}

theorem refl (x : ExceptT MappingError (StateM σ) α) : UpToLimit x x := fun _ => .inr rfl

theorem throw {limit : Nat} :
    UpToLimit (throwThe MappingError (.recursionLimit limit) : ExceptT MappingError (StateM σ) α)
      y :=
  fun _ => .inl ⟨limit, rfl⟩

theorem bind {f g : α → ExceptT MappingError (StateM σ) β} (hx : UpToLimit x y)
    (hf : ∀ a, UpToLimit (f a) (g a)) : UpToLimit (x >>= f) (y >>= g) := by
  intro s
  rcases hx s with h | h
  · exact .inl (reportsLimit_bind.mpr (.inl h))
  · rcases hrun : x.run s with ⟨_ | a, s'⟩
    · exact .inr (by rw [run_bind, run_bind, ← h, hrun])
    · rcases hf a s' with hlimit | heq
      · exact .inl (reportsLimit_bind.mpr (.inr ⟨a, s', hrun, hlimit⟩))
      · exact .inr (by rw [run_bind, run_bind, ← h, hrun]; exact heq)

theorem onTable {α : Type} {x y : TableM α} (h : UpToLimit x y) :
    UpToLimit (RecastM.onTable x) (RecastM.onTable y) := by
  intro s
  simp only [RecastM.onTable, ExceptT.run] at h ⊢
  rcases h s.table with ⟨limit, h⟩ | h
  · exact .inl ⟨limit, h⟩
  · exact .inr (by rw [show x s.table = y s.table from h])

end UpToLimit

/-! ## §2  Paths -/

namespace Configuration

variable {c : Configuration}

/-- A larger budget does not change how a path is followed. -/
theorem followPath_upToLimit {limit limit' : Nat} {fullPath : String} :
    ∀ {budget budget' : Nat} {model data : Ty} {path : List String} {steps : List DataStep},
      budget ≤ budget' →
        UpToLimit (c.followPath limit fullPath budget model data path steps)
          (c.followPath limit' fullPath budget' model data path steps)
  | _, _, _, _, [], _, _ => by
      rw [followPath, followPath]
      exact .refl _
  | 0, _, _, _, _ :: _, _, _ => .throw
  | budget + 1, 0, _, _, _ :: _, _, h => absurd h (by omega)
  | budget + 1, budget' + 1, model, data, name :: rest, steps, h => by
      rw [followPath, followPath]
      split
      · exact .refl _
      · exact .bind (.refl _) fun a => followPath_upToLimit (Nat.le_of_succ_le_succ h)

theorem dataPath_upToLimit {model data : Ty} {path : List String} {d d' : Nat} (h : d ≤ d') :
    UpToLimit (c.dataPath model data path d) (c.dataPath model data path d') :=
  followPath_upToLimit h

end Configuration

/-! ## §3  Nodes -/

/-- A relation between computations that holds of equal ones and is kept by sequencing. -/
structure Congruence (R : {α : Type} → RecastM α → RecastM α → Prop) : Prop where
  refl : ∀ {α : Type} (x : RecastM α), R x x
  bind : ∀ {α β : Type} {x y : RecastM α} {f g : α → RecastM β},
    R x y → (∀ a, R (f a) (g a)) → R (x >>= f) (y >>= g)

theorem UpToLimit.congruence : Congruence UpToLimit := ⟨.refl, .bind⟩

theorem Congruence.coupling {R : {α : Type} → RecastM α → RecastM α → Prop} (hR : Congruence R)
    (w : Recaster) : Coupling w R where
  pure _ := hR.refl _
  throw _ := hR.refl _
  bind := hR.bind
  dataType _ := hR.refl _
  replace _ := hR.refl _
  relate _ _ := hR.refl _
  noteBuilt _ := hR.refl _

namespace Recaster

/-- The recaster with another limit. -/
def withLimit (w : Recaster) (d : Nat) : Recaster :=
  { w with options := { w.options with maxDepth := d } }

theorem size_chainBase_le : ∀ e : Expr, e.chainBase.size ≤ e.size
  | .member e m => by
      have := size_chainBase_le e
      simp only [Expr.chainBase, Expr.size]
      omega
  | .param _ | .const _ _ | .lambda _ _ _ | .unary _ _ _ | .binary _ _ _ _ _ | .cond _ _ _ _
  | .call _ _ _ | .new _ _ | .newArray _ _ | .typeIs _ _ _ | .invoke _ _ _ | .default _ => by
      simp only [Expr.chainBase, Nat.le_refl]

variable {w : Recaster} {d d' : Nat} {self self' : Expr → RecastM Outcome}

section Congruence

variable {R : {α : Type} → RecastM α → RecastM α → Prop} (hR : Congruence R)

include hR

theorem binaryNode_congr {op : BinaryOp} {left right : Expr} {conversion : Option Expr}
    {done : Option Outcome} (hleft : done = none → R (self left) (self' left))
    (hright : R (self right) (self' right))
    (hconversion : ∀ c ∈ conversion, R (self c) (self' c)) :
    R (w.binaryNode self op left right conversion done)
      (w.binaryNode self' op left right conversion done) := by
  show R ((w.withOptions w.options).binaryNode self op left right conversion done)
    ((w.withOptions w.options).binaryNode self' op left right conversion done)
  exact (hR.coupling w).binaryNode hleft hright hconversion

/-- A node that is no binary operator looks at smaller expressions only, and no node but a member
access reads the limit. -/
theorem node_congr {e : Expr} (hbinary : e.isBinary = false)
    (hself : ∀ c, c.size < e.size → R (self c) (self' c))
    (hpath : ∀ data, R (RecastM.onTable (w.config.dataPath e.chainBase.ty data e.chainNames d))
      (RecastM.onTable (w.config.dataPath e.chainBase.ty data e.chainNames d'))) :
    R ((w.withLimit d).node self e) ((w.withLimit d').node self' e) := by
  have hchild : ∀ c ∈ e.children, R (self c) (self' c) := fun c hc =>
    hself c (Expr.size_lt_of_child hc)
  have hcoupling := hR.coupling w
  refine hcoupling.node hbinary hchild (fun hmember => ?_) fun op x t he => ?_
  · have hbase : e.chainBase.size < e.size := by
      cases e with
      | member a m =>
          have := size_chainBase_le a
          simp only [Expr.chainBase, Expr.size]
          omega
      | _ => cases hmember
    exact hcoupling.member (hself _ hbase) hpath
  · exact hcoupling.unary (hchild x (by simp [he, Expr.children])) fun _ _ _ =>
      hcoupling.rebuildUnary rfl

end Congruence

/-! ## §4  Recasting -/

/-- Below a higher limit there are at least as many levels left. -/
theorem recastWithin_upToLimit (h : d ≤ d') : ∀ {n n' : Nat}, n ≤ n' → ∀ e,
    UpToLimit ((w.withLimit d).recastWithin n e) ((w.withLimit d').recastWithin n' e)
  | 0, _, _, _ => .throw
  | n + 1, 0, hn, _ => absurd hn (by omega)
  | n + 1, n' + 1, hn, e => by
      have ih := recastWithin_upToLimit h (Nat.le_of_succ_le_succ hn)
      rw [recastWithin, recastWithin]
      have hR := UpToLimit.congruence.coupling w
      exact hR.anyNode ih (fun data => .onTable (Configuration.dataPath_upToLimit h))
        fun op x t _ => hR.unary (ih x) fun _ _ _ => hR.rebuildUnary rfl

theorem recast_upToLimit (w : Recaster) (h : d ≤ d') (e : Expr) :
    UpToLimit ((w.withLimit d).recast e) ((w.withLimit d').recast e) :=
  recastWithin_upToLimit h h e

end Recaster

namespace LambdaRecaster

variable {m : LambdaRecaster} {d d' : Nat}

def withLimit (m : LambdaRecaster) (d : Nat) : LambdaRecaster :=
  { m with options := { m.options with maxDepth := d } }

theorem recast_upToLimit (h : d ≤ d') (e : Expr) (pair : Option TyPair) (asInclude : Bool) :
    UpToLimit ((m.withLimit d).recast e pair asInclude)
      ((m.withLimit d').recast e pair asInclude) := by
  unfold recast
  split
  · exact .refl _
  · have hseed (params : List Parameter) : (m.withLimit d).seed params pair =
        (m.withLimit d').seed params pair := seed_withOptions.trans seed_withOptions.symm
    rw [hseed]
    refine .bind (.refl _) fun _ => .bind (.refl _) fun _ => .bind ?_ fun _ => .refl _
    let w : Recaster :=
      { config := m.config, mapper := m.mapper, options := m.options, asInclude := asInclude }
    exact w.recast_upToLimit h (unquoted e)

/-- Whatever recasting ends with other than the limit, it ends with under every higher limit, in
the same state. -/
theorem recast_withLimit (h : d ≤ d') (e : Expr) (pair : Option TyPair) (asInclude : Bool)
    (s : RecastState) :
    (∀ o s', Returns ((m.withLimit d).recast e pair asInclude) s o s' →
      Returns ((m.withLimit d').recast e pair asInclude) s o s') ∧
    ∀ error s', ((m.withLimit d).recast e pair asInclude).run s = (.error error, s') →
      (∀ limit, error ≠ .recursionLimit limit) →
        ((m.withLimit d').recast e pair asInclude).run s = (.error error, s') := by
  rcases recast_upToLimit h e pair asInclude s with ⟨limit, hlimit⟩ | heq
  · refine ⟨fun o s' ho => ?_, fun error s' herror hne => ?_⟩
    · rw [ho] at hlimit
      cases hlimit
    · rw [herror] at hlimit
      exact absurd (Except.error.inj hlimit) (hne limit)
  · refine ⟨fun o s' ho => heq.symm.trans ho, fun error s' herror _ => heq.symm.trans herror⟩

/-! ### An order recast on four levels -/

namespace Orders

/-- The orders without a rule for the label. -/
def unlabelled : LambdaRecaster :=
  { config := ⟨registry, [{ mapping with rules := [] }]⟩, mapper := .keep }

end Orders

open Orders in
/-- Four levels are enough for the result and for the error of a member that is not mapped. -/
theorem recast_withLimit_orders :
    4 ≤ 256 ∧
    (∃ s', Returns ((recaster.withLimit 4).recast isX none false) { fresh := 2 }
        (.made isXOnOrder) s' ∧
      Returns ((recaster.withLimit 256).recast isX none false) { fresh := 2 }
        (.made isXOnOrder) s') ∧
    ∃ s', ((unlabelled.withLimit 256).recast isX none false).run { fresh := 2 } =
      (.error (.unmappedMember "OrderModel" "Label" "Label"), s') := by
  have hresult : Returns ((recaster.withLimit 4).recast isX none false) { fresh := 2 }
      (.made isXOnOrder) (((recaster.withLimit 4).recast isX none false).run { fresh := 2 }).2 :=
    rfl
  have herror : ((unlabelled.withLimit 4).recast isX none false).run { fresh := 2 } =
      (.error (.unmappedMember "OrderModel" "Label" "Label"),
        (((unlabelled.withLimit 4).recast isX none false).run { fresh := 2 }).2) := rfl
  have hlimit : 4 ≤ 256 := by decide
  exact ⟨hlimit, ⟨_, hresult, (recast_withLimit hlimit isX none false _).1 _ _ hresult⟩, _,
    (recast_withLimit hlimit isX none false _).2 _ _ herror fun _ h => by cases h⟩

end LambdaRecaster

end Recast
