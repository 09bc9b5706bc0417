import Recast.Proofs.ConformingRows
import Recast.Recaster.Lambda

/-! # Recast predicates mean the same

A predicate over a model, built from Boolean members and comparisons of scalars, is
recast to one that holds of a row exactly when the predicate holds of the mapped
row.  Paths come to corresponding values by `Recaster.Follows.path`, constants are
mapped to the data type of what they are compared with, and comparing corresponding
scalars gives the same on both sides (`Configuration.Corresponds.sameValue`).

- `Registry.Predicate` — the predicates.
- `Recaster.Carries`, `Recaster.Means` — what is kept of operands and of predicates.
- `LambdaRecaster.keepsMeaning` — whole lambdas.
-/

namespace Recast

/-! ## §1  Predicates -/

/-- Every comparison has an operand that is no constant. -/
def Expr.ComparesPaths (e : Expr) : Prop :=
  ∀ op l r c t, .binary op l r c t ∈ e.nodes → op = .equal ∨ op = .notEqual →
    l.isConstant = false ∨ r.isConstant = false

theorem Expr.ComparesPaths.child {e a : Expr} (h : e.ComparesPaths) (ha : a ∈ e.children) :
    a.ComparesPaths :=
  fun op l r c t hn => h op l r c t (nodes_subset_of_child ha hn)

namespace Registry

/-- A path of members of the parameter. -/
def IsPath (r : Registry) (m : Parameter) (e : Expr) : Prop :=
  ∃ names, names ≠ [] ∧ r.mkPath (.param m) names = .ok e

/-- What predicates compare: scalar members and constants. -/
inductive Operand (r : Registry) (m : Parameter) : Expr → Prop
  | path {e : Expr} : r.IsPath m e → r.isScalar e.ty = true → Operand r m e
  | const {v : Value} {t : Ty} : r.isScalar t = true → r.Suits v t → Operand r m (.const v t)

/-- Predicates on the members of a parameter, each node made by its constructor. -/
inductive Predicate (r : Registry) (m : Parameter) : Expr → Prop
  | path {e : Expr} : r.IsPath m e → r.literal? (r.core e.ty) = some .boolean → Predicate r m e
  | compare {op : BinaryOp} {a b e : Expr} : op = .equal ∨ op = .notEqual → Operand r m a →
      Operand r m b → r.mkBinary op a b none = .ok e → Predicate r m e
  | connect {op : BinaryOp} {a b e : Expr} : op = .andAlso ∨ op = .orElse → Predicate r m a →
      Predicate r m b → r.mkBinary op a b none = .ok e → Predicate r m e
  | not {a e : Expr} : Predicate r m a → r.mkUnary .not a = .ok e → Predicate r m e
  | cond {a b c e : Expr} : Predicate r m a → Predicate r m b → Predicate r m c →
      r.mkCond a b c = .ok e → Predicate r m e

variable {r : Registry}

theorem isMember_select : ∀ {ms : List Member} {e : Expr}, e.isMember = true ∨ ms ≠ [] →
    ∃ a m, e.select ms = .member a m
  | [], e, h => by
      cases e with
      | member a m => exact ⟨a, m, rfl⟩
      | _ => simp [Expr.isMember] at h
  | m :: ms, e, _ => by
      rw [Expr.select, List.foldl_cons]
      exact @isMember_select ms (.member e m) (.inl rfl)

theorem chainBase_select : ∀ {ms : List Member} {e : Expr}, (e.select ms).chainBase = e.chainBase
  | [], _ => rfl
  | m :: ms, e => by
      rw [Expr.select, List.foldl_cons]
      exact @chainBase_select ms (.member e m)

theorem chainNames_select : ∀ {ms : List Member} {e : Expr},
    (e.select ms).chainNames = e.chainNames ++ ms.map (·.name)
  | [], _ => by simp [Expr.select]
  | m :: ms, e => by
      rw [Expr.select, List.foldl_cons]
      refine (@chainNames_select ms (.member e m)).trans ?_
      simp [Expr.chainNames]

/-- A path is a chain of members over the parameter. -/
theorem IsPath.chain {m : Parameter} {e : Expr} (h : r.IsPath m e) :
    (∃ a x, e = .member a x) ∧ e.chainBase = .param m ∧
      ∃ ms, r.requireMembers m.ty e.chainNames = .ok ms ∧ e = (Expr.param m).select ms ∧
        e.chainNames ≠ [] := by
  obtain ⟨names, hnames, hpath⟩ := h
  obtain ⟨ms, hms, rfl⟩ := mkPath_eq_ok hpath
  have hchain : ((Expr.param m).select ms).chainNames = names := by
    rw [chainNames_select, names_of_requireMembers hms]
    rfl
  have hne : ms ≠ [] := by
    rintro rfl
    exact hnames (names_of_requireMembers hms).symm
  exact ⟨isMember_select (.inr hne), chainBase_select, ms, hchain.symm ▸ hms, rfl, hchain ▸ hnames⟩

theorem Operand.isBinary {m : Parameter} {e : Expr} (h : r.Operand m e) : e.isBinary = false := by
  cases h with
  | path hpath _ =>
      obtain ⟨⟨_, _, rfl⟩, -⟩ := hpath.chain
      rfl
  | const => rfl

end Registry

/-! ## §2  What is kept -/

namespace Recaster

open Recast.Configuration EvalM

/-- The parameter is bound to the mapped row on one side, its replacement to the row on the
other. -/
def Bound (m q : Parameter) (x row : Value) (env env' : Env) : Prop :=
  env.get? m.id = some x ∧ env'.get? q.id = some row

/-- A predicate and what it is recast to have the same value. -/
def Means (r : Registry) (m q : Parameter) (x row : Value) (e e' : Expr) : Prop :=
  ∀ n n', Agree (Bound m q x row) (· = ·) (r.eval n e) (r.eval n' e')

/-- The values of an operand and of what it is recast to.  What a constant is recast to may be of
any type if it is null. -/
structure Carried (c : Configuration) (e e' : Expr) (v u : Value) : Prop where
  corresponds : c.Corresponds e'.ty e.ty u v
  scalar : u.isNull = true ∨ c.types.isScalar (c.types.core e'.ty) = true
  bridged : e.isConstant = false → c.types.Bridged e'.ty e.ty

/-- A scalar operand and what it is recast to have values that correspond. -/
structure Carries (c : Configuration) (m q : Parameter) (x row : Value) (e e' : Expr) : Prop where
  scalar : c.types.isScalar (c.types.core e.ty) = true
  values : ∀ n n', Agree (Bound m q x row) (Carried c e e') (c.types.eval n e) (c.types.eval n' e')

section Meaning

variable {c : Configuration} {r : Registry} {m q : Parameter} {x row : Value}
variable {e e' a a' b b' : Expr} {t t' : Ty} {op : BinaryOp}

theorem agree_eval {E : Env → Env → Prop} {P : Value → Value → Prop}
    (h : ∀ n n', Agree E P (r.evalNode (r.eval n) e) (r.evalNode (r.eval n') e')) :
    ∀ n n', Agree E P (r.eval n e) (r.eval n' e')
  | 0, _ => agree_throw_left
  | _ + 1, 0 => agree_throw_right
  | n + 1, n' + 1 => h n n'

/-- Operands compare as what they are recast to does, if one of them is no constant and the types
can be compared on both sides. -/
theorem Carried.sameValue {u u' v v' : Value} (ha : Carried c a a' v u) (hb : Carried c b b' v' u')
    (hat : c.types.isScalar (c.types.core a.ty) = true)
    (hbt : c.types.isScalar (c.types.core b.ty) = true)
    (hdata : c.types.areComparable a'.ty b'.ty = true)
    (hmodel : c.types.areComparable a.ty b.ty = true)
    (hpath : a.isConstant = false ∨ b.isConstant = false) : v.sameValue v' = u.sameValue u' := by
  rcases ha.scalar with hnull | hat'
  · rw [Value.eq_null hnull, Value.eq_null (ha.corresponds.null.trans hnull),
      sameValue_null_left, sameValue_null_left, hb.corresponds.null]
  · rcases hb.scalar with hnull | hbt'
    · rw [Value.eq_null hnull, Value.eq_null (hb.corresponds.null.trans hnull),
        sameValue_null_right, sameValue_null_right, ha.corresponds.null]
    · have hsame := Registry.core_eq_of_comparable hat' hbt' hdata
      have hsame' := Registry.core_eq_of_comparable hat hbt hmodel
      refine ha.corresponds.sameValue hb.corresponds hsame.symm hsame'.symm ?_
      rcases hpath with h | h
      · exact ha.bridged h
      · exact (hb.bridged h).congr hsame hsame'

theorem Means.compare (ha : Carries c m q x row a a') (hb : Carries c m q x row b b')
    (hop : op = .equal ∨ op = .notEqual) (hpath : a.isConstant = false ∨ b.isConstant = false)
    (hdata : c.types.areComparable a'.ty b'.ty = true)
    (hmodel : c.types.areComparable a.ty b.ty = true) :
    Means c.types m q x row (.binary op a b none t) (.binary op a' b' none t') := by
  refine agree_eval fun n n' => ?_
  rcases hop with rfl | rfl <;>
  · refine agree_bind (ha.values n n') fun v u hv => ?_
    refine agree_bind (hb.values n n') fun v' u' hv' => ?_
    have hsame := hv.sameValue hv' ha.scalar hb.scalar hdata hmodel hpath
    refine agree_ofExcept fun y z hy hz => ?_
    simp only [operatorValue, hsame] at hy hz
    exact Except.ok.inj (hy.symm.trans hz)

theorem Means.connect (ha : Means r m q x row a a') (hb : Means r m q x row b b')
    (hop : op = .andAlso ∨ op = .orElse) :
    Means r m q x row (.binary op a b none t) (.binary op a' b' none t') := by
  have hshort : ∀ absorbing n n', Agree (Bound m q x row) (· = ·)
      (Registry.shortCircuit (r.eval n) op absorbing a b)
      (Registry.shortCircuit (r.eval n') op absorbing a' b') := by
    intro absorbing n n'
    refine agree_bind (ha n n') ?_
    rintro v _ rfl
    split
    · exact agree_pure rfl
    · refine agree_bind (hb n n') ?_
      rintro w _ rfl
      exact agree_ofExcept fun y z hy hz => Except.ok.inj (hy.symm.trans hz)
  refine agree_eval fun n n' => ?_
  rcases hop with rfl | rfl
  · exact hshort false n n'
  · exact hshort true n n'

theorem Means.not (ha : Means r m q x row a a') :
    Means r m q x row (.unary .not a t) (.unary .not a' t') := by
  refine agree_eval fun n n' => agree_bind (ha n n') ?_
  rintro v _ rfl
  exact agree_ofExcept fun y z hy hz => Except.ok.inj (hy.symm.trans hz)

theorem Means.cond {d d' : Expr} (ha : Means r m q x row a a') (hb : Means r m q x row b b')
    (hd : Means r m q x row d d') :
    Means r m q x row (.cond a b d t) (.cond a' b' d' t') := by
  refine agree_eval fun n n' => agree_bind (ha n n') ?_
  rintro v _ rfl
  cases v with
  | bool answer =>
      cases answer with
      | true => exact hb n n'
      | false => exact hd n n'
  | _ => exact agree_throw_left

/-- Boolean operands are predicates. -/
theorem Carries.means (h : Carries c m q x row e e') (he : e.isConstant = false)
    (hboolean : c.types.literal? (c.types.core e.ty) = some .boolean) :
    Means c.types m q x row e e' := by
  intro n n' env env' v u e₁ e₁' henv hv hu
  obtain ⟨hcarried, hrest⟩ := h.values n n' henv hv hu
  exact ⟨hcarried.corresponds.same ((hcarried.bridged he).core_of_boolean hboolean), hrest⟩

end Meaning

/-! ## §3  Recasting -/

section Recasting

variable {w : Recaster} {m q : Parameter} {x row : Value} {s s' : RecastState} {o : Outcome}

/-- The computation keeps the replacement of the parameter, and what is made of the expression has
the property. -/
def Recasts (m q : Parameter) (act : RecastM Outcome) (e : Expr) (P : Expr → Prop) : Prop :=
  ∀ ⦃s o s'⦄, s.replacements.get? m = some q → Returns act s o s' →
    s'.replacements.get? m = some q ∧ P (o.on e)

theorem Recasts.mono {act : RecastM Outcome} {e : Expr} {P Q : Expr → Prop}
    (h : Recasts m q act e P) (hPQ : ∀ e', P e' → Q e') : Recasts m q act e Q := by
  intro s o s' hq ho
  obtain ⟨hq', hP⟩ := h hq ho
  exact ⟨hq', hPQ _ hP⟩

theorem dataType_replacements {t t' : Ty} (h : Returns (w.dataType t) s t' s') :
    s'.replacements = s.replacements := by
  simp only [dataType, RecastM.noteResolved, returns_bind, returns_get, returns_modify,
    returns_pure] at h
  obtain ⟨_, _, ⟨rfl, rfl⟩, _, _, rfl, -, rfl⟩ := h
  rfl

theorem relate_replacements {t t' : Ty} {u : Unit} (h : Returns (w.relate t t') s u s') :
    s'.replacements = s.replacements := by
  simp only [relate, RecastM.returns_onTable] at h
  obtain ⟨_, -, rfl⟩ := h
  rfl

/-- A parameter that has a replacement gets it. -/
theorem replace_known {p : Parameter} (hq : s.replacements.get? m = some q)
    (h : Returns (w.replace m) s p s') : p = q ∧ s'.replacements.get? m = some q := by
  simp only [replace, returns_bind, returns_get, returns_set, returns_pure] at h
  obtain ⟨_, s₁, hty, _, _, ⟨rfl, rfl⟩, _, _, rfl, rfl, rfl⟩ := h
  have hq' : s₁.replacements.get? m = some q := by
    rw [dataType_replacements hty]
    exact hq
  rw [Replacements.replace, hq']
  exact ⟨rfl, hq'⟩

theorem recastWithin_param {n : Nat} (hq : s.replacements.get? m = some q)
    (h : Returns (w.recastWithin n (.param m)) s o s') :
    s'.replacements.get? m = some q ∧ o.on (.param m) = .param q ∧ (o.isKept = true → q = m) := by
  cases n with
  | zero => exact absurd h returns_throw
  | succ n =>
      simp only [recastWithin, node, param, returns_bind, returns_pure] at h
      obtain ⟨p, s₁, hp, rfl, rfl⟩ := h
      obtain ⟨rfl, hq'⟩ := replace_known hq hp
      refine ⟨hq', ?_⟩
      by_cases heq : p = m
      · rw [if_pos heq]
        exact ⟨by rw [heq]; rfl, fun _ => heq⟩
      · rw [if_neg heq]
        exact ⟨rfl, fun h => by cases h⟩

/-- Between equal types the steps are the members that were named. -/
theorem walk_dataPath_self {limit : Nat} {t : Ty} {names : List String} {ms : List Member}
    {steps : List DataStep} {T T' : TypeTable} {e : Expr} (hnames : names ≠ [])
    (hms : w.types.requireMembers t names = .ok ms)
    (h : Returns (w.config.dataPath t t names limit) T steps T') :
    w.walk e steps = .ok (e.select ms) := by
  obtain ⟨name, rest, rfl⟩ := List.exists_cons_of_ne_nil hnames
  unfold Configuration.dataPath at h
  cases limit with
  | zero => exact absurd h returns_throw
  | succ budget =>
      rw [Configuration.followPath, if_pos rfl] at h
      simp only [returns_bind, TableM.returns_ofChecked, returns_pure] at h
      obtain ⟨ms', _, ⟨hms', -⟩, rfl, -⟩ := h
      obtain rfl := Except.ok.inj (hms.symm.trans hms')
      rw [walk_appendMembers]
      rfl

/-- What the recaster maps, and the row and its image. -/
structure Mirrors (w : Recaster) (m q : Parameter) (x row : Value) : Prop where
  scalars : w.config.MapsScalars
  reads : w.config.ReadsScalars
  mapper : w.mapper = w.config.valueAs
  plain : w.asInclude = false
  model : w.types.isRecord m.ty = true
  apart : ∀ s t, w.config.Meets q.ty m.ty s t → w.config.KeepsApart s t
  conforms : w.config.Conforms row q.ty
  mapped : w.config.valueAs row q.ty m.ty = .ok x

/-- A path of the parameter becomes the expression that the steps on the data side lead to. -/
theorem path_recasts (hw : w.Mirrors m q x row) {e : Expr} {n : Nat} (he : w.types.IsPath m e) :
    Recasts m q (w.recastWithin n e) e fun e' => ∃ steps T T',
      Returns (w.config.dataPath m.ty q.ty e.chainNames w.options.maxDepth) T steps T' ∧
        w.walk (.param q) steps = .ok e' := by
  intro s o s' hq h
  cases n with
  | zero => exact absurd h returns_throw
  | succ n =>
      obtain ⟨⟨a, y, hmember⟩, hbase, ms, hms, hselect, hnames⟩ := he.chain
      have hnode : w.node (w.recastWithin n) e = w.member (w.recastWithin n) e := by
        rw [hmember]
        rfl
      simp only [recastWithin, hnode, member, hbase, returns_bind, RecastM.returns_onTable] at h
      obtain ⟨ob, s₁, hob, steps, _, ⟨T', hsteps, rfl⟩, h⟩ := h
      obtain ⟨hq', hparam, hkept⟩ := recastWithin_param hq hob
      rw [hparam] at h hsteps
      have hcustom := followPath_members hw.scalars hsteps rfl
      rw [hcustom] at h
      split at h
      · rename_i hretraces
        obtain ⟨rfl, rfl⟩ := returns_pure.mp h
        obtain rfl := hkept (by simp_all)
        refine ⟨hq', steps, _, T', hsteps, ?_⟩
        rw [walk_dataPath_self hnames hms hsteps, ← hselect]
        rfl
      · simp only [returns_bind, RecastM.returns_ofChecked, settle, Bool.false_and,
          Bool.false_eq_true, if_false, hw.plain, returns_pure] at h
        obtain ⟨walked, _, ⟨hwalked, rfl⟩, _, _, ⟨_, _, hrelate, rfl, rfl⟩, rfl, rfl⟩ := h
        refine ⟨?_, steps, _, T', hsteps, hwalked⟩
        rw [relate_replacements hrelate]
        exact hq'

/-- By `Follows.path` the value on the data side is mapped to the one that the path has. -/
theorem path_carries (hw : w.Mirrors m q x row) {e : Expr} {n : Nat} (he : w.types.IsPath m e)
    (hscalar : w.types.isScalar (w.types.core e.ty) = true) :
    Recasts m q (w.recastWithin n e) e (Carries w.config m q x row e) := by
  refine (path_recasts hw he).mono ?_
  rintro e' ⟨steps, T, T', hsteps, hwalk⟩
  refine ⟨hscalar, fun k k' env env' v u e₁ e₁' henv hv hu => ?_⟩
  obtain ⟨-, -, ms, hms, hselect, -⟩ := he.chain
  -- the path reads a chain from the mapped row
  rw [hselect] at hv
  obtain ⟨j, y, hy, hchain⟩ := readChain_of_returns hv
  obtain ⟨rfl, rfl⟩ := Registry.yields_param henv.1 hy
  obtain ⟨hmeets, z, hyields, hkept, hmapped⟩ :=
    (hw.scalars.follows hw.apart).path rfl (.inr hw.conforms) hsteps hwalk hms hw.mapped hchain
  obtain ⟨rfl, rfl⟩ := hyields henv.2 hu
  have hty : e.ty = Registry.chainEnd m.ty ms := by
    rw [hselect, Registry.ty_select]
    rfl
  rw [← hty] at hmeets hkept hmapped
  have hbridged := hmeets.bridged hw.scalars hw.reads hw.model hscalar
  have hsuits : e'.ty ≠ e.ty → w.config.types.Suits u e'.ty := by
    intro hne
    rcases hkept hne with hnull | hconforms
    · exact .inl hnull
    · exact hconforms.suits
  exact ⟨⟨corresponds_of_mapped hsuits hmapped, .inr (hbridged.isScalar hscalar),
    fun _ => hbridged⟩, rfl, rfl⟩

/-- A constant is mapped to the data type of its type. -/
theorem const_carries (hw : w.Mirrors m q x row) {v : Value} {t : Ty} {n : Nat}
    (ht : w.types.isScalar t = true) (hv : w.types.Suits v t) :
    Recasts m q (w.recastWithin n (.const v t)) (.const v t)
      (Carries w.config m q x row (.const v t)) := by
  intro s o s' hq h
  have hcore := Registry.core_of_scalar ht
  cases n with
  | zero => exact absurd h returns_throw
  | succ n =>
      simp only [recastWithin, node, const, returns_bind] at h
      obtain ⟨target, s₁, htarget, h⟩ := h
      have hq' : s₁.replacements.get? m = some q := by
        rw [dataType_replacements htarget]
        exact hq
      have hmade : ∃ v', s' = s₁ ∧ o.on (.const v t) = .const v' target ∧
          w.config.valueAs v t target = .ok v' := by
        split at h
        · rename_i heq
          obtain ⟨rfl, rfl⟩ := returns_pure.mp h
          exact ⟨v, rfl, by rw [heq]; rfl, by rw [heq]; exact valueWithin_self⟩
        · obtain ⟨e, he, rfl⟩ := returns_map.mp h
          unfold constantAs at he
          rw [hw.mapper] at he
          split at he
          · rename_i v' hv'
            obtain ⟨rfl, rfl⟩ := returns_pure.mp he
            exact ⟨v', rfl, rfl, hv'⟩
          · exact absurd he returns_throw
      obtain ⟨v', rfl, heq, hmapped⟩ := hmade
      rw [heq]
      refine ⟨hq', hcore, agree_eval fun k k' => agree_pure ⟨?_, ?_, fun h => by cases h⟩⟩
      · exact (corresponds_of_mapped (fun _ => hv) hmapped).symm
      · cases hnull : v'.isNull with
        | true => exact .inl rfl
        | false =>
            exact .inr (isScalar_of_mapped hcore ((valueWithin_isNull hmapped).symm.trans hnull) hmapped)

theorem operand_carries (hw : w.Mirrors m q x row) {e : Expr} {n : Nat}
    (he : w.types.Operand m e) :
    Recasts m q (w.recastWithin n e) e (Carries w.config m q x row e) := by
  cases he with
  | path hpath hscalar => exact path_carries hw hpath (Registry.core_of_scalar hscalar)
  | const ht hv => exact const_carries hw ht hv

section Operators

variable {self : Expr → RecastM Outcome} {op : BinaryOp} {a b e : Expr} {t : Ty}
variable {P Q : Expr → Prop}

/-- The operands are recast in one order or the other. -/
theorem operands_recasts {leftDone : Option Outcome} {l r : Outcome}
    (hdone : ∀ o ∈ leftDone, P (o.on a)) (ha : leftDone = none → Recasts m q (self a) a P)
    (hb : Recasts m q (self b) b Q) (hq : s.replacements.get? m = some q)
    (h : Returns (operands self a b leftDone) s (l, r) s') :
    s'.replacements.get? m = some q ∧ P (l.on a) ∧ Q (r.on b) := by
  cases leftDone with
  | some done =>
      simp only [operands, returns_bind, returns_pure, Prod.mk.injEq] at h
      obtain ⟨r', s₁, hr, ⟨rfl, rfl⟩, rfl⟩ := h
      obtain ⟨hq', hQ⟩ := hb hq hr
      exact ⟨hq', hdone _ rfl, hQ⟩
  | none =>
      have ha := ha rfl
      simp only [operands] at h
      split at h
      · simp only [returns_bind, returns_pure, Prod.mk.injEq] at h
        obtain ⟨r', s₁, hr, l', s₂, hl, ⟨rfl, rfl⟩, rfl⟩ := h
        obtain ⟨hq₁, hQ⟩ := hb hq hr
        obtain ⟨hq₂, hP⟩ := ha hq₁ hl
        exact ⟨hq₂, hP, hQ⟩
      · simp only [returns_bind, returns_pure, Prod.mk.injEq] at h
        obtain ⟨l', s₁, hl, r', s₂, hr, ⟨rfl, rfl⟩, rfl⟩ := h
        obtain ⟨hq₁, hP⟩ := ha hq hl
        obtain ⟨hq₂, hQ⟩ := hb hq₁ hr
        exact ⟨hq₂, hP, hQ⟩

/-- A binary node is kept or made anew from its operands; either way the operator is defined for
them. -/
theorem binaryNode_recasts {leftDone : Option Outcome}
    (hdone : ∀ o ∈ leftDone, P (o.on a)) (ha : leftDone = none → Recasts m q (self a) a P)
    (hb : Recasts m q (self b) b Q) (ht : w.types.resultType? op a.ty b.ty = some t) :
    Recasts m q (w.binaryNode self op a b none leftDone) (.binary op a b none t) fun e' =>
      ∃ a' b' t', e' = .binary op a' b' none t' ∧ P a' ∧ Q b' ∧
        w.types.resultType? op a'.ty b'.ty = some t' := by
  intro s o s' hq h
  simp only [binaryNode, optional, returns_bind, returns_pure] at h
  obtain ⟨⟨l, r⟩, s₁, hoperands, _, _, ⟨rfl, rfl⟩, h⟩ := h
  obtain ⟨hq', hP, hQ⟩ := operands_recasts hdone ha hb hq hoperands
  dsimp only at h
  split at h
  · rename_i hkept
    obtain ⟨rfl, rfl⟩ := returns_pure.mp h
    simp only [Bool.and_eq_true] at hkept
    obtain ⟨⟨hl, hr⟩, -⟩ := hkept
    cases l with
    | made _ => cases hl
    | kept =>
        cases r with
        | made _ => cases hr
        | kept => exact ⟨hq', a, b, t, rfl, hP, hQ, ht⟩
  · obtain ⟨e, he, rfl⟩ := returns_map.mp h
    obtain ⟨hmade, rfl⟩ := RecastM.returns_ofChecked.mp he
    obtain ⟨t', ht', rfl⟩ := Registry.mkBinary_eq_ok.mp hmade
    exact ⟨hq', _, _, t', rfl, hP, hQ, ht'⟩

theorem areComparable_of_resultType {r : Registry} {s u : Ty} (hop : op = .equal ∨ op = .notEqual)
    (h : r.resultType? op s t = some u) : r.areComparable s t = true := by
  rcases hop with rfl | rfl <;>
  · simp only [Registry.resultType?] at h
    split at h
    · assumption
    · cases h

variable (hpredicate : ∀ e, w.types.Predicate m e → e.ComparesPaths →
  Recasts m q (self e) e (Means w.types m q x row e))
variable (hoperand : ∀ e, w.types.Operand m e → Recasts m q (self e) e (Carries w.config m q x row e))

include hpredicate hoperand in
/-- Along the left operands the outcome of one node is the operand of the next. -/
theorem spine_means (he : w.types.Predicate m e) (hpaths : e.ComparesPaths) :
    Recasts m q (w.spine self e) e (Means w.types m q x row e) := by
  induction he with
  | path hpath hboolean =>
      obtain ⟨⟨_, _, rfl⟩, -⟩ := hpath.chain
      exact hpredicate _ (.path hpath hboolean) hpaths
  | @compare op a b e hop ha hb hmade =>
      obtain ⟨t, ht, rfl⟩ := Registry.mkBinary_eq_ok.mp hmade
      have hconstant := hpaths op a b none t (Expr.mem_nodes_self _) hop
      rw [spine, if_neg (by simp [ha.isBinary])]
      refine (binaryNode_recasts (by simp) (fun _ => hoperand a ha) (hoperand b hb) ht).mono ?_
      rintro e' ⟨a', b', t', rfl, ha', hb', ht'⟩
      exact .compare ha' hb' hop hconstant (areComparable_of_resultType hop ht')
        (areComparable_of_resultType hop ht)
  | @connect op a b e hop ha hb hmade iha ihb =>
      obtain ⟨t, ht, rfl⟩ := Registry.mkBinary_eq_ok.mp hmade
      have hpa : a.ComparesPaths := hpaths.child (by simp [Expr.children])
      have hpb : b.ComparesPaths := hpaths.child (by simp [Expr.children])
      rw [spine]
      split
      · intro s o s' hq h
        obtain ⟨l, s₁, hl, h⟩ := returns_bind.mp h
        obtain ⟨hq', hmeans⟩ := iha hpa hq hl
        have hdone : ∀ o ∈ some l, Means w.types m q x row a (o.on a) := by
          rintro _ ⟨⟩
          exact hmeans
        have hnode := binaryNode_recasts hdone (by simp) (hpredicate b hb hpb) ht
        obtain ⟨hq'', a', b', t', heq, ha', hb', -⟩ := hnode hq' h
        rw [heq]
        exact ⟨hq'', .connect ha' hb' hop⟩
      · refine (binaryNode_recasts (by simp) (fun _ => hpredicate a ha hpa)
          (hpredicate b hb hpb) ht).mono ?_
        rintro e' ⟨a', b', t', rfl, ha', hb', -⟩
        exact .connect ha' hb' hop
  | @not a e ha hmade ih =>
      obtain ⟨t, rfl⟩ := Registry.mkUnary_eq_ok rfl hmade
      exact hpredicate _ (.not ha hmade) hpaths
  | cond ha hb hc hmade =>
      obtain rfl := Registry.mkCond_eq_ok hmade
      exact hpredicate _ (.cond ha hb hc hmade) hpaths

/-- A negation is rebuilt over its operand, whatever its type may be. -/
theorem unary_means (ha : Recasts m q (self a) a (Means w.types m q x row a)) :
    Recasts m q (w.unary self .not a t) (.unary .not a t)
      (Means w.types m q x row (.unary .not a t)) := by
  intro s o s' hq h
  have hnone : convertedConstant? .not a = none := by
    cases a <;> rfl
  simp only [unary, hnone, operand, conversionTarget, rebuildUnary, UnaryOp.isConversion,
    returns_bind, reduceCtorEq, Bool.false_eq_true, if_false, returns_pure] at h
  obtain ⟨oa, s₁, hoa, _, _, ⟨rfl, rfl⟩, h⟩ := h
  obtain ⟨hq', hmeans⟩ := ha hq hoa
  split at h
  · rename_i hkept
    obtain ⟨rfl, rfl⟩ := returns_pure.mp h
    cases oa with
    | made _ => cases hkept
    | kept => exact ⟨hq', hmeans.not⟩
  · obtain ⟨e, he, rfl⟩ := returns_map.mp h
    split at he
    · obtain ⟨t', ht', rfl⟩ := returns_map.mp he
      rw [dataType_replacements ht']
      exact ⟨hq', hmeans.not⟩
    · obtain ⟨hmade, rfl⟩ := RecastM.returns_ofChecked.mp he
      obtain ⟨t', rfl⟩ := Registry.mkUnary_eq_ok rfl hmade
      exact ⟨hq', hmeans.not⟩

theorem cond_means {c : Expr} (ha : Recasts m q (self a) a (Means w.types m q x row a))
    (hb : Recasts m q (self b) b (Means w.types m q x row b))
    (hc : Recasts m q (self c) c (Means w.types m q x row c)) :
    Recasts m q (w.node self (.cond a b c t)) (.cond a b c t)
      (Means w.types m q x row (.cond a b c t)) := by
  intro s o s' hq h
  simp only [node, returns_bind] at h
  obtain ⟨oa, s₁, hoa, ob, s₂, hob, oc, s₃, hoc, h⟩ := h
  obtain ⟨hq₁, ha'⟩ := ha hq hoa
  obtain ⟨hq₂, hb'⟩ := hb hq₁ hob
  obtain ⟨hq₃, hc'⟩ := hc hq₂ hoc
  split at h
  · rename_i hkept
    obtain ⟨rfl, rfl⟩ := returns_pure.mp h
    simp only [Bool.and_eq_true] at hkept
    obtain ⟨⟨hoa, hob⟩, hoc⟩ := hkept
    cases oa with
    | made _ => cases hoa
    | kept =>
        cases ob with
        | made _ => cases hob
        | kept =>
            cases oc with
            | made _ => cases hoc
            | kept => exact ⟨hq₃, ha'.cond hb' hc'⟩
  · obtain ⟨e, he, rfl⟩ := returns_map.mp h
    obtain ⟨hmade, rfl⟩ := RecastM.returns_ofChecked.mp he
    rw [Registry.mkCond_eq_ok hmade]
    exact ⟨hq₃, ha'.cond hb' hc'⟩

end Operators

/-- By induction on the levels that are left. -/
theorem recastWithin_means (hw : w.Mirrors m q x row) : ∀ (n : Nat) (e : Expr),
    w.types.Predicate m e → e.ComparesPaths →
      Recasts m q (w.recastWithin n e) e (Means w.types m q x row e)
  | 0, _, _, _ => fun _ _ _ _ h => absurd h returns_throw
  | n + 1, e, he, hpaths => by
      have ih := recastWithin_means hw n
      cases he with
      | path hpath hboolean =>
          have hscalar : w.types.isScalar (w.types.core e.ty) = true := by
            simp [Registry.isScalar, Registry.isLiteral, hboolean]
          refine (path_carries hw hpath hscalar).mono fun e' h => h.means ?_ hboolean
          obtain ⟨⟨_, _, rfl⟩, -⟩ := hpath.chain
          rfl
      | compare hop ha hb hmade =>
          have hspine := spine_means ih (fun e h => operand_carries hw h)
            (.compare hop ha hb hmade) hpaths
          obtain ⟨t, -, rfl⟩ := Registry.mkBinary_eq_ok.mp hmade
          exact hspine
      | connect hop ha hb hmade =>
          have hspine := spine_means ih (fun e h => operand_carries hw h)
            (.connect hop ha hb hmade) hpaths
          obtain ⟨t, -, rfl⟩ := Registry.mkBinary_eq_ok.mp hmade
          exact hspine
      | not ha hmade =>
          obtain ⟨t, rfl⟩ := Registry.mkUnary_eq_ok rfl hmade
          exact unary_means (ih _ ha (hpaths.child (by simp [Expr.children])))
      | cond ha hb hc hmade =>
          obtain rfl := Registry.mkCond_eq_ok hmade
          exact cond_means (ih _ ha (hpaths.child (by simp [Expr.children])))
            (ih _ hb (hpaths.child (by simp [Expr.children])))
            (ih _ hc (hpaths.child (by simp [Expr.children])))

end Recasting

end Recaster

/-! ## §4  Whole lambdas -/

/-- A conversion to Boolean keeps the value. -/
theorem Registry.castValue_boolean {r : Registry} {v w : Value} {s : Ty}
    (h : r.castValue v s .boolean = .ok w) : w = v := by
  cases hnull : v.isNull with
  | true =>
      rw [Value.eq_null hnull] at h ⊢
      simp only [castValue, Value.isNull, if_true] at h
      split at h
      · cases h
      · cases h
        rfl
  | false =>
      have hplain : r.stripNullable .boolean = .boolean := rfl
      have hvariants : r.variants? .boolean = none := rfl
      simp only [castValue, hnull, Bool.false_eq_true, if_false, hplain, hvariants] at h
      split at h
      · rename_i u hu
        cases h
        split at hu
        · rename_i l hl
          obtain rfl : l = .boolean := by
            simp only [literal?] at hl
            split at hl
            · cases hl
            · exact (Option.some.inj hl).symm
          exact (Option.some.inj hu).symm
        · exact (Option.some.inj hu).symm
      · cases h

theorem Registry.returns_convert {r : Registry} {n : Nat} {e : Expr} {t : Ty} {env env' : Env}
    {v : Value} (h : Returns (r.eval n (.unary .convert e t)) env v env') :
    ∃ k u, Returns (r.eval k e) env u env' ∧ r.castValue u e.ty t = .ok v := by
  cases n with
  | zero => exact absurd h returns_throw
  | succ n =>
      simp only [eval, evalNode, unaryValue, returns_bind, EvalM.returns_ofExcept] at h
      obtain ⟨u, _, hu, hcast, rfl⟩ := h
      exact ⟨n, u, hu, hcast⟩

namespace Recaster

variable {w : Recaster} {s s' : RecastState}

theorem replace_get? {m q : Parameter} (h : Returns (w.replace m) s q s') :
    s'.replacements.get? m = some q := by
  simp only [replace, returns_bind, returns_get, returns_set, returns_pure] at h
  obtain ⟨data, s₁, -, _, _, ⟨rfl, rfl⟩, _, _, rfl, rfl, rfl⟩ := h
  unfold Replacements.replace
  split
  · assumption
  · split
    · simp [Replacements.get?]
    · simp [Replacements.get?]

/-- A lambda of one parameter is recast to one over its replacement. -/
theorem lambda_recasts {self : Expr → RecastM Outcome} {m : Parameter} {body : Expr} {t : Ty}
    {o : Outcome} (h : Returns (w.lambda self [m] body) s o s') :
    ∃ q ob s₁ s₂ t', s₁.replacements.get? m = some q ∧ Returns (self body) s₁ ob s₂ ∧
      o.on (.lambda [m] body t) = .lambda [q] (ob.on body) t' := by
  simp only [lambda, replaceAll, returns_bind, returns_pure] at h
  obtain ⟨_, _, ⟨q, s₁, hreplace, _, _, ⟨rfl, rfl⟩, rfl, rfl⟩, ob, s₂, hbody, h⟩ := h
  refine ⟨q, ob, s₁, s₂, ?_⟩
  split at h
  · rename_i hkept
    obtain ⟨rfl, rfl⟩ := returns_pure.mp h
    simp only [Bool.and_eq_true, beq_iff_eq, List.cons.injEq, and_true] at hkept
    obtain ⟨hob, rfl⟩ := hkept
    cases ob with
    | made _ => cases hob
    | kept => exact ⟨t, replace_get? hreplace, hbody, rfl⟩
  · obtain ⟨rfl, rfl⟩ := returns_pure.mp h
    exact ⟨_, replace_get? hreplace, hbody, rfl⟩

end Recaster

namespace LambdaRecaster

/-- Predicates over the model and over the data type. -/
def predicates (model data : Ty) : TyPair := ⟨.func [model] .boolean, .func [data] .boolean⟩

/-- Whatever the predicate is recast to has its value, on the row and on the mapped row, as long as
both have one. -/
def KeepsMeaning (c : Configuration) (options : RecastOptions) (m : Parameter) (data : Ty)
    (e : Expr) (row : Value) : Prop :=
  ∀ ⦃s o s' x a b⦄,
    Returns ((ofConfig c options).recast (Registry.mkLambda [m] e)
      (some (predicates m.ty data)) false) s o s' →
    c.valueAs row data m.ty = .ok x → c.types.apply (Registry.mkLambda [m] e) [x] = .ok a →
      c.types.apply (o.on (Registry.mkLambda [m] e)) [row] = .ok b → a = b

section Predicates

variable {r : LambdaRecaster} {m q : Parameter} {data t : Ty} {e body e' : Expr}
variable {s s' : RecastState}

/-- A lambda that fits the delegate has its parameter type, and the body as it was or converted to
Boolean. -/
theorem fitTo_predicates {model : Ty}
    (h : r.fitTo (.lambda [q] body t) (predicates model data) = .ok e') :
    q.ty = data ∧ ∃ body' t', e' = .lambda [q] body' t' ∧
      (body' = body ∨ body' = .unary .convert body .boolean) := by
  simp only [fitTo, Checked.bind_eq_ok] at h
  obtain ⟨⟨ps, ret⟩, hsignature, body', hbody, hmade⟩ := h
  have hknown : r.types.signature? (.func [data] .boolean) = some (ps, ret) := by
    unfold requireSignature at hsignature
    split at hsignature
    · rename_i parts hparts
      cases hsignature
      exact hparts
    · cases hsignature
  have hreturn : ps = [data] ∧ ret = .boolean := by
    simp only [Registry.signature?] at hknown
    split at hknown
    · cases hknown
    · cases hknown
      exact ⟨rfl, rfl⟩
  obtain ⟨rfl, rfl⟩ := hreturn
  have hstrip : r.types.stripExpression (r.types.stripExpression (predicates model data).destination) =
      .func [data] .boolean := rfl
  simp only [Registry.mkLambdaTyped, hstrip, hknown] at hmade
  split at hmade
  · rename_i hfits
    cases hmade
    refine ⟨(List.cons.inj hfits.1).1.symm, body', _, rfl, ?_⟩
    unfold fitBody at hbody
    split at hbody
    · cases hbody
      exact .inl rfl
    · split at hbody
      · exact .inr (Registry.mkConversion_eq_ok hbody)
      · cases hbody
  · cases hmade

/-- The parts of a recast predicate: its parameter is of the data type, and its body is what the
body of the lambda is recast to, or that converted to Boolean. -/
theorem recast_predicates {o : Outcome}
    (h : Returns (r.recast (Registry.mkLambda [m] e) (some (predicates m.ty data)) false) s o s') :
    ∃ q n ob s₁ s₂ body t, s₁.replacements.get? m = some q ∧ q.ty = data ∧
      Returns (({ config := r.config, mapper := r.mapper, options := r.options } :
        Recaster).recastWithin n e) s₁ ob s₂ ∧
      o.on (Registry.mkLambda [m] e) = .lambda [q] body t ∧
        (body = ob.on e ∨ body = .unary .convert (ob.on e) .boolean) := by
  obtain ⟨_, _, _, _, oe, -, -, hoe, hfinish⟩ := returns_recast.mp h
  simp only [Registry.mkLambda] at hoe hfinish ⊢
  cases hlevels : r.options.maxDepth with
  | zero =>
      simp only [Recaster.recast, hlevels] at hoe
      exact absurd hoe returns_throw
  | succ n =>
      simp only [Recaster.recast, hlevels, Recaster.recastWithin, unquoted, Recaster.node] at hoe
      obtain ⟨q, ob, s₁, s₃, t, hq, hbody, hlambda⟩ := Recaster.lambda_recasts hoe
      simp only [finish, fitOutcome, isQuoted, unquoted, Bool.false_eq_true, if_false,
        Checked.bind_eq_ok, Checked.map_eq_ok, Checked.pure_eq_ok] at hfinish
      obtain ⟨_, ⟨fitted, hfits, rfl⟩, rfl⟩ := hfinish
      rw [hlambda] at hfits
      obtain ⟨hty, body, t', rfl, hcases⟩ := fitTo_predicates hfits
      exact ⟨q, n, ob, s₁, s₃, body, t', hq, hty, hbody, rfl, hcases⟩

end Predicates

/-- A configuration of scalars, a predicate over a model record, and a row that conforms. -/
structure PredicateOver (c : Configuration) (m : Parameter) (data : Ty) (e : Expr) (row : Value) :
    Prop where
  scalars : c.MapsScalars
  model : c.types.isRecord m.ty = true
  predicate : c.types.Predicate m e
  conforms : c.Conforms row data

/-- Recasting keeps the meaning of predicates, if scalars are read from scalars, what is read lies
between types that their mappings relate, and no two constants are compared. -/
theorem keepsMeaning {c : Configuration} {options : RecastOptions} {m : Parameter} {data : Ty}
    {e : Expr} {row : Value} (h : PredicateOver c m data e row) (hreads : c.ReadsScalars)
    (hapart : ∀ s t, c.Meets data m.ty s t → c.KeepsApart s t) (hpaths : e.ComparesPaths) :
    KeepsMeaning c options m data e row := by
  intro s o s' x a b hrecast hx ha hb
  obtain ⟨q, n, ob, s₁, s₂, body, t, hq, rfl, hbody, hlambda, hcases⟩ := recast_predicates hrecast
  rw [hlambda] at hb
  have hmirrors : Recaster.Mirrors
      { config := c, mapper := c.valueAs, options := options } m q x row :=
    ⟨h.scalars, hreads, rfl, rfl, h.model, hapart, h.conforms, hx⟩
  have hmeans := (Recaster.recastWithin_means hmirrors n e h.predicate hpaths hq hbody).2
  obtain ⟨env, hrun⟩ := Registry.returns_of_apply (q := m) rfl ha
  obtain ⟨env', hrun'⟩ := Registry.returns_of_apply (q := q) rfl hb
  have hbound : Recaster.Bound m q x row ((Scope.empty : Env).push [(m.id, x)])
      ((Scope.empty : Env).push [(q.id, row)]) :=
    ⟨Registry.get?_push_self, Registry.get?_push_self⟩
  rcases hcases with rfl | rfl
  · exact (hmeans _ _ hbound hrun hrun').1
  · obtain ⟨k, v, hv, hcast⟩ := Registry.returns_convert hrun'
    rw [Registry.castValue_boolean hcast]
    exact (hmeans _ _ hbound hrun hv).1

/-! ### Tickets whose status is a number on the data side -/

namespace Tickets

def ticket : Ty := .declared 0

def ticketModel : Ty := .declared 1

def status : Ty := .declared 2

def number : Member := ⟨"Status", .int32⟩

def state : Member := ⟨"Status", status⟩

def registry : Registry :=
  { declarations := [.record "Ticket" none [number], .record "TicketModel" none [state],
      .enumeration "Status" ["Open", "Closed"]] }

def mapping : Mapping :=
  { source := ticket, destination := ticketModel, rules := [{ member := state, source := [number] }] }

def tickets : Configuration := ⟨registry, [mapping]⟩

def row : Value := .record ticket [("Status", .int 1)]

def mapped : Value := .record ticketModel [("Status", .enum "Closed")]

def m : Parameter := ⟨1, "m", ticketModel⟩

/-- `m.Status == Closed` -/
def isClosed : Expr :=
  .binary .equal (.member (.param m) state) (.const (.enum "Closed") status) none .boolean

/-- `m => m.Status == 1` over the ticket. -/
def isClosedNumber : Expr :=
  .lambda [⟨2, "m", ticket⟩]
    (.binary .equal (.member (.param ⟨2, "m", ticket⟩) number) (.const (.int 1) .int32) none .boolean)
    (.func [ticket] .boolean)

theorem bridged : registry.Bridged .int32 status := by
  refine .inr ⟨["Open", "Closed"], .inr rfl, .inr (.inr ⟨⟨.int32, rfl, rfl⟩, by decide, by decide⟩), ?_⟩
  exact .inr (.inl rfl)

theorem predicateOver : PredicateOver tickets m ticket isClosed row where
  scalars := by
    refine Configuration.mapsScalars_single rfl rfl ⟨rfl, rfl⟩ rfl fun p hp => ?_
    obtain rfl := List.mem_singleton.mp hp
    exact ⟨⟨rfl, rfl, trivial⟩, rfl, fun _ _ => bridged⟩
  model := rfl
  predicate :=
    .compare (.inl rfl) (.path ⟨["Status"], by simp, rfl⟩ rfl)
      (.const (v := .enum "Closed") (t := status) rfl (.inr ⟨"Closed", by simp, rfl⟩)) rfl
  conforms := by
    refine Configuration.conforms_of_members (.inr fun _ => rfl) fun y u hy hu => ?_
    obtain rfl := List.mem_singleton.mp (Configuration.member?_mem rfl hy)
    cases hu
    exact Configuration.conforms_of_members (.inr rfl) fun z _ hz _ => by cases hz

theorem reads : tickets.ReadsScalars := by
  intro m hm p hp _ _
  obtain rfl := List.mem_singleton.mp hm
  obtain rfl := List.mem_singleton.mp hp
  rfl

theorem comparesPaths : isClosed.ComparesPaths := by
  intro op l r c t hn _
  simp only [isClosed, Expr.nodes, List.cons_append, List.nil_append, List.mem_cons,
    Expr.binary.injEq, reduceCtorEq, List.not_mem_nil, or_false] at hn
  obtain ⟨-, rfl, -⟩ := hn
  exact .inl rfl

end Tickets

open Tickets in
theorem keepsMeaning_tickets : KeepsMeaning tickets {} m ticket isClosed row ∧
    (∃ s, Returns ((ofConfig tickets {}).recast (Registry.mkLambda [m] isClosed)
      (some (predicates ticketModel ticket)) false) { fresh := 2 } (.made isClosedNumber) s) ∧
    tickets.valueAs row ticket ticketModel = .ok mapped ∧
    registry.apply (Registry.mkLambda [m] isClosed) [mapped] = .ok (.bool true) ∧
    registry.apply isClosedNumber [row] = .ok (.bool true) := by
  refine ⟨keepsMeaning predicateOver reads (fun s t h => h.keepsApart rfl ?_) comparesPaths,
    ⟨_, returns_of_run rfl⟩, rfl, rfl, rfl⟩
  intro m hm p hp _
  obtain rfl := List.mem_singleton.mp hm
  obtain rfl := List.mem_singleton.mp hp
  exact .inr rfl

/-! ### Where predicates part

Two constants of one instant at different offsets, which are mapped to their local times; texts
made of values that are no texts; a row whose own type has a mapping. -/

namespace Shifts

def shift : Ty := .declared 0

def shiftModel : Ty := .declared 1

def offsetTime : Ty := .literal .dateTimeOffset

def starts : Member := ⟨"Starts", .seq .enumerable .dateTime⟩

def startsModel : Member := ⟨"Starts", .seq .enumerable offsetTime⟩

def registry : Registry :=
  { declarations := [.record "Shift" none [starts], .record "ShiftModel" none [startsModel]] }

def mapping : Mapping :=
  { source := shift, destination := shiftModel,
    rules := [{ member := startsModel, source := [starts] }] }

def shifts : Configuration := ⟨registry, [mapping]⟩

def row : Value := .record shift [("Starts", .list [])]

def m : Parameter := ⟨1, "m", shiftModel⟩

/-- The first instant of 1970, on a clock that is that many hours ahead. -/
def instant (hours : Int) : Value := .dateTimeOffset ⟨⟨0, 0⟩, hours * 3600⟩

def sameInstant : Expr :=
  .binary .equal (.const (instant 0) offsetTime) (.const (instant 1) offsetTime) none
    .boolean

theorem predicateOver : PredicateOver shifts m shift sameInstant row where
  scalars := by
    refine Configuration.mapsScalars_single rfl rfl ⟨rfl, rfl⟩ rfl fun p hp => ?_
    obtain rfl := List.mem_singleton.mp hp
    exact ⟨⟨rfl, rfl, trivial⟩, rfl, fun _ h => by cases h⟩
  model := rfl
  predicate := by
    have hconst : ∀ hours, registry.Operand m (.const (instant hours) offsetTime) :=
      fun hours => .const rfl (.inr rfl)
    exact .compare (.inl rfl) (hconst 0) (hconst 1) rfl
  conforms := by
    refine Configuration.conforms_of_members (.inr fun _ => rfl) fun y u hy hu => ?_
    obtain rfl := List.mem_singleton.mp (Configuration.member?_mem rfl hy)
    cases hu
    exact Configuration.conforms_of_members (.inr fun h => by cases h) fun z _ hz _ => by cases hz

def sameTime : Expr :=
  .lambda [⟨2, "m", shift⟩]
    (.binary .equal (.const (.dateTime ⟨0, 0⟩) .dateTime) (.const (.dateTime ⟨3600, 0⟩) .dateTime)
      none .boolean) (.func [shift] .boolean)

theorem not_keepsMeaning : ¬ KeepsMeaning shifts {} m shift sameInstant row := by
  intro h
  have hsame : Value.bool true = .bool false :=
    h (returns_of_run (s := { fresh := 2 }) (a := .made sameTime) rfl) rfl rfl rfl
  cases hsame

end Shifts

namespace Notes

def note : Ty := .declared 0

def noteModel : Ty := .declared 1

def left : Member := ⟨"Left", .object⟩

def right : Member := ⟨"Right", .object⟩

def leftModel : Member := ⟨"Left", .string⟩

def rightModel : Member := ⟨"Right", .string⟩

def registry : Registry :=
  { declarations := [.record "Note" none [left, right],
      .record "NoteModel" none [leftModel, rightModel]] }

def mapping : Mapping :=
  { source := note, destination := noteModel,
    rules := [{ member := leftModel, source := [left] }, { member := rightModel, source := [right] }] }

def notes : Configuration := ⟨registry, [mapping]⟩

/-- A Boolean and a text that reads the same. -/
def row : Value := .record note [("Left", .bool true), ("Right", .str "True")]

def m : Parameter := ⟨1, "m", noteModel⟩

def sameText : Expr :=
  .binary .equal (.member (.param m) leftModel) (.member (.param m) rightModel) none .boolean

theorem predicateOver : PredicateOver notes m note sameText row where
  scalars := by
    refine Configuration.mapsScalars_single rfl rfl ⟨rfl, rfl⟩ rfl fun p hp => ?_
    rcases List.mem_pair.mp hp with rfl | rfl
    · exact ⟨⟨rfl, rfl, trivial⟩, rfl, fun h => by cases h⟩
    · exact ⟨⟨rfl, rfl, trivial⟩, rfl, fun h => by cases h⟩
  model := rfl
  predicate :=
    .compare (.inl rfl) (.path ⟨["Left"], by simp, rfl⟩ rfl) (.path ⟨["Right"], by simp, rfl⟩ rfl) rfl
  conforms := by
    have hobject : ∀ v, notes.Conforms v .object := fun v =>
      Configuration.conforms_of_members (.inr fun h => by cases h) fun z _ hz _ => by cases hz
    refine Configuration.conforms_of_members (.inr fun _ => rfl) fun y u hy hu => ?_
    rcases List.mem_pair.mp (Configuration.member?_mem rfl hy) with rfl | rfl
    · exact hobject u
    · exact hobject u

def q : Parameter := ⟨2, "m", note⟩

def sameObject : Expr :=
  .lambda [q] (.binary .equal (.member (.param q) left) (.member (.param q) right) none .boolean)
    (.func [note] .boolean)

/-- The parameter has its replacement, and these data types are known. -/
def seen (entries : List (Ty × Ty)) : RecastState :=
  { table := ⟨entries⟩, replacements := ⟨[(1, q)]⟩, fresh := 3 }

def known : List (Ty × Ty) := [(noteModel, note), (.string, .object)]

def recaster : Recaster := { config := notes, mapper := notes.valueAs, options := {} }

theorem returns_left :
    Returns (recaster.recastWithin 254 (.member (.param m) leftModel))
      (seen [(noteModel, note)]) (.made (.member (.param q) left)) (seen known) := rfl

theorem returns_right :
    Returns (recaster.recastWithin 254 (.member (.param m) rightModel))
      (seen known) (.made (.member (.param q) right)) (seen known) := rfl

theorem returns_sameText :
    Returns (recaster.recastWithin 255 sameText) (seen [(noteModel, note)])
      (.made (.binary .equal (.member (.param q) left) (.member (.param q) right) none .boolean))
      (seen known) := by
  show Returns (recaster.binaryNode (recaster.recastWithin 254) .equal
    (.member (.param m) leftModel) (.member (.param m) rightModel) none none) _ _ _
  have hoperands : Returns (Recaster.operands (recaster.recastWithin 254)
      (.member (.param m) leftModel) (.member (.param m) rightModel) none)
      (seen [(noteModel, note)])
      (.made (.member (.param q) left), .made (.member (.param q) right)) (seen known) :=
    returns_bind.mpr ⟨_, _, returns_left, returns_bind.mpr ⟨_, _, returns_right, rfl⟩⟩
  exact returns_bind.mpr ⟨_, _, hoperands, rfl⟩

theorem returns_sameObject :
    Returns ((ofConfig notes {}).recast (Registry.mkLambda [m] sameText)
      (some (predicates noteModel note)) false) { fresh := 2 } (.made sameObject) (seen known) := by
  refine returns_bind.mpr ⟨(), ⟨⟨[(noteModel, note)]⟩, {}, 2, [], []⟩, rfl, ?_⟩
  refine returns_bind.mpr ⟨(), _, rfl, returns_bind.mpr ⟨.made sameObject, seen known, ?_, rfl⟩⟩
  exact returns_bind.mpr ⟨[q], seen [(noteModel, note)], rfl,
    returns_bind.mpr ⟨_, _, returns_sameText, rfl⟩⟩

theorem not_keepsMeaning : ¬ KeepsMeaning notes {} m note sameText row := by
  intro h
  have hsame : Value.bool true = .bool false := h returns_sameObject rfl rfl rfl
  cases hsame

end Notes

namespace Boxes

open Recaster.Boxes

def boxes : Configuration := ⟨registry, [mapping]⟩

def m : Parameter := ⟨1, "m", box (.declared 1)⟩

def isX : Expr := .binary .equal (.member (.param m) x) (.const (.str "x") .string) none .boolean

theorem predicateOver : PredicateOver boxes m (box (.declared 0)) isX row where
  scalars := by
    refine Configuration.mapsScalars_single rfl rfl ⟨rfl, rfl⟩ rfl fun p hp => ?_
    rcases List.mem_pair.mp hp with rfl | rfl
    · exact ⟨⟨rfl, rfl, trivial⟩, rfl, fun _ _ => .inl rfl⟩
    · exact ⟨⟨rfl, rfl, trivial⟩, rfl, fun _ _ => .inl rfl⟩
  model := rfl
  predicate :=
    .compare (.inl rfl) (.path ⟨["X"], by simp, rfl⟩ rfl)
      (.const (v := .str "x") (t := .string) rfl (.inr rfl)) rfl
  conforms := by
    have htext : ∀ text, boxes.Conforms (.str text) .string := fun text =>
      Configuration.conforms_literal (fun _ => rfl) rfl
    refine Configuration.conforms_of_members (.inr fun _ => rfl) fun y u hy hu => ?_
    rcases List.mem_pair.mp (Configuration.member?_mem rfl hy) with rfl | rfl
    · cases hu
      exact htext "x"
    · cases hu
      exact htext "y"

def q : Parameter := ⟨2, "m", box (.declared 0)⟩

def isXBoxed : Expr :=
  .lambda [q] (.binary .equal (.member (.param q) x) (.const (.str "x") .string) none .boolean)
    (.func [box (.declared 0)] .boolean)

theorem not_keepsMeaning : ¬ KeepsMeaning boxes {} m (box (.declared 0)) isX row := by
  intro h
  have hsame : Value.bool false = .bool true :=
    h (returns_of_run (s := { fresh := 2 }) (a := .made isXBoxed) rfl) rfl rfl rfl
  cases hsame

end Boxes

/-- Without these conditions the two may differ. -/
theorem keepsMeaning_fails :
    (PredicateOver Shifts.shifts Shifts.m Shifts.shift Shifts.sameInstant Shifts.row ∧
      ¬ KeepsMeaning Shifts.shifts {} Shifts.m Shifts.shift Shifts.sameInstant Shifts.row) ∧
    (PredicateOver Notes.notes Notes.m Notes.note Notes.sameText Notes.row ∧
      ¬ KeepsMeaning Notes.notes {} Notes.m Notes.note Notes.sameText Notes.row) ∧
    (PredicateOver Boxes.boxes Boxes.m (Recaster.Boxes.box (.declared 0)) Boxes.isX
        Recaster.Boxes.row ∧
      ¬ KeepsMeaning Boxes.boxes {} Boxes.m (Recaster.Boxes.box (.declared 0)) Boxes.isX
        Recaster.Boxes.row) :=
  ⟨⟨Shifts.predicateOver, Shifts.not_keepsMeaning⟩, ⟨Notes.predicateOver, Notes.not_keepsMeaning⟩,
    ⟨Boxes.predicateOver, Boxes.not_keepsMeaning⟩⟩

end LambdaRecaster

end Recast
