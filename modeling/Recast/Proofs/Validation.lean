import Recast.Proofs.Coupling
import Recast.Proofs.Typing

/-! # Recasting without validation

Without validation a unary node is built over its recast operand as it stands.  A conversion
keeps its target; any other operator takes the type that the table has for the type of the
node, and not the one that it has over the operand.  Where the two are one type, recasting
without validation ends as it does with validation.

- `EndsAlike` — whatever the first computation ends well with, the second does.
- `Recaster.confirmedWithin` — recasting that stops at a unary node of two types.
- `LambdaRecaster.recast_ignoring` — what is confirmed needs no validation.
-/

namespace Recast

/-! ## §1  Ending alike -/

/-- The states differ at most in what they note about the types that were met. -/
structure RecastState.SameRun (s t : RecastState) : Prop where
  table : s.table = t.table
  replacements : s.replacements = t.replacements
  fresh : s.fresh = t.fresh

namespace RecastState.SameRun

variable {s t u : RecastState}

theorem refl (s : RecastState) : s.SameRun s := ⟨rfl, rfl, rfl⟩

theorem symm (h : s.SameRun t) : t.SameRun s :=
  ⟨h.table.symm, h.replacements.symm, h.fresh.symm⟩

theorem trans (h : s.SameRun t) (h' : t.SameRun u) : s.SameRun u :=
  ⟨h.table.trans h'.table, h.replacements.trans h'.replacements, h.fresh.trans h'.fresh⟩

end RecastState.SameRun

/-- Whatever the first computation ends well with, the second ends with it too. -/
def EndsAlike {α : Type} (x y : RecastM α) : Prop :=
  ∀ s t a s', s.SameRun t → Returns x s a s' → ∃ t', Returns y t a t' ∧ s'.SameRun t'

namespace EndsAlike

variable {α β : Type} {x y : RecastM α}

theorem pure (a : α) : EndsAlike (pure a : RecastM α) (pure a) := by
  intro s t b s' hst h
  obtain ⟨rfl, rfl⟩ := returns_pure.mp h
  exact ⟨t, returns_pure.mpr ⟨rfl, rfl⟩, hst⟩

theorem throw (e : MappingError) : EndsAlike (throw e : RecastM α) y := by
  intro s t a s' _ h
  cases h

theorem bind {f g : α → RecastM β} (hx : EndsAlike x y) (hf : ∀ a, EndsAlike (f a) (g a)) :
    EndsAlike (x >>= f) (y >>= g) := by
  intro s t b s' hst h
  obtain ⟨a, s₁, ha, hb⟩ := returns_bind.mp h
  obtain ⟨t₁, ha', hst₁⟩ := hx s t a s₁ hst ha
  obtain ⟨t', hb', hst'⟩ := hf a s₁ t₁ b s' hst₁ hb
  exact ⟨t', returns_bind.mpr ⟨a, t₁, ha', hb'⟩, hst'⟩

theorem checked {x : Checked α} {a : α} (h : ∀ b, x = .ok b → b = a) :
    EndsAlike (RecastM.ofChecked x) (Pure.pure a) := by
  intro s t b s' hst hrun
  obtain ⟨hb, rfl⟩ := RecastM.returns_ofChecked.mp hrun
  obtain rfl := h b hb
  exact ⟨t, returns_pure.mpr ⟨rfl, rfl⟩, hst⟩

theorem modify {f : RecastState → RecastState} (hf : ∀ s t, s.SameRun t → (f s).SameRun (f t)) :
    EndsAlike (modify f : RecastM Unit) (modify f) := by
  intro s t a s' hst h
  obtain rfl := returns_modify.mp h
  exact ⟨f t, returns_modify.mpr rfl, hf s t hst⟩

/-- Tables are all that is read. -/
theorem onTable (x : TableM α) : EndsAlike (RecastM.onTable x) (RecastM.onTable x) := by
  intro s t a s' hst h
  obtain ⟨T, hT, rfl⟩ := RecastM.returns_onTable.mp h
  exact ⟨{ t with table := T }, RecastM.returns_onTable.mpr ⟨T, hst.table ▸ hT, rfl⟩,
    ⟨rfl, hst.replacements, hst.fresh⟩⟩

theorem readTable {f g : TypeTable → RecastM α} (h : ∀ T, EndsAlike (f T) (g T)) :
    EndsAlike (get >>= fun s => f s.table) (get >>= fun s => g s.table) := by
  intro s t a s' hst ha
  obtain ⟨_, _, hget, ha⟩ := returns_bind.mp ha
  obtain ⟨rfl, rfl⟩ := returns_get.mp hget
  obtain ⟨t', ha', hst'⟩ := h _ _ t a s' hst ha
  exact ⟨t', returns_bind.mpr ⟨t, t, returns_get.mpr ⟨rfl, rfl⟩, hst.table ▸ ha'⟩, hst'⟩

theorem dataType (w : Recaster) (ty : Ty) : EndsAlike (w.dataType ty) (w.dataType ty) := by
  intro s t ty' s' hst h
  obtain ⟨rfl, rfl⟩ := Recaster.returns_dataType.mp h
  exact ⟨t.lookUp w.types ty, Recaster.returns_dataType.mpr ⟨by rw [hst.table], rfl⟩,
    ⟨hst.table, hst.replacements, hst.fresh⟩⟩

theorem replace (w : Recaster) (p : Parameter) : EndsAlike (w.replace p) (w.replace p) := by
  intro s t p' s' hst h
  obtain ⟨replacements, fresh, hp, rfl⟩ := Recaster.returns_replace.mp h
  rw [hst.table, hst.replacements, hst.fresh] at hp
  exact ⟨_, Recaster.returns_replace.mpr ⟨replacements, fresh, hp, rfl⟩, ⟨hst.table, rfl, rfl⟩⟩

theorem coupling (w : Recaster) : Coupling w EndsAlike where
  pure := .pure
  throw _ := .throw _
  bind := .bind
  dataType := .dataType w
  replace := .replace w
  relate _ _ := .onTable _
  noteBuilt _ := .modify fun _ _ h => ⟨h.table, h.replacements, h.fresh⟩

end EndsAlike

/-! ## §2  Confirmed types -/

/-- The type of a node is derived from the operand. -/
def UnaryOp.derivesType (op : UnaryOp) : Bool := !op.isConversion && op != .quote

def RecastOptions.ignoring (o : RecastOptions) (ignore : Bool) : RecastOptions :=
  { o with ignoreValidations := ignore }

namespace Recaster

section Confirmed

variable (w : Recaster)

def ignoring (ignore : Bool) : Recaster := w.withOptions (w.options.ignoring ignore)

/-- The table has the type for a unary node that its operator has over the recast operand. -/
def isConfirmed (t : TypeTable) (e : Expr) (o : Outcome) : Bool :=
  match e, o with
  | .unary op _ ty, .made e' => !op.derivesType || t.dataType w.types ty == e'.ty
  | _, _ => true

def confirm (e : Expr) (o : Outcome) : RecastM Outcome := do
  let s ← get
  if w.isConfirmed s.table e o then pure o
  else throw (.invalidArgument ("two types for " ++ w.types.tyText e.ty))

/-- Recasting that goes on only as long as the table and the operators agree. -/
def confirmedWithin : Nat → Expr → RecastM Outcome
  | 0 => fun _ => throw (.recursionLimit w.options.maxDepth)
  | n + 1 => fun e => do
    let o ← w.node (confirmedWithin n) e
    w.confirm e o

end Confirmed

variable {w : Recaster} {self self' : Expr → RecastM Outcome}

/-- To confirm an outcome leaves it and the state alone. -/
theorem returns_confirm {e : Expr} {out out' : Outcome} {s s' : RecastState} :
    Returns (w.confirm e out) s out' s' ↔
      w.isConfirmed s.table e out = true ∧ out = out' ∧ s = s' := by
  simp only [confirm, returns_bind, returns_get]
  constructor
  · rintro ⟨_, _, ⟨rfl, rfl⟩, h⟩
    split at h
    · rename_i hconfirmed
      obtain ⟨rfl, rfl⟩ := returns_pure.mp h
      exact ⟨hconfirmed, rfl, rfl⟩
    · cases h
  · rintro ⟨hconfirmed, rfl, rfl⟩
    exact ⟨s, s, ⟨rfl, rfl⟩, by rw [if_pos hconfirmed]; exact returns_pure.mpr ⟨rfl, rfl⟩⟩

theorem endsAlike_of_confirm {x y : RecastM Outcome} {e : Expr} (h : EndsAlike x y) :
    EndsAlike (x >>= w.confirm e) y := by
  intro s t out s' hst hout
  obtain ⟨_, _, hx, hconfirm⟩ := returns_bind.mp hout
  obtain ⟨-, rfl, rfl⟩ := returns_confirm.mp hconfirm
  exact h s t _ _ hst hx

/-- What is confirmed is recast the same way without confirming it. -/
theorem confirmedWithin_endsAlike : ∀ (n : Nat) (e : Expr),
    EndsAlike (w.confirmedWithin n e) (w.recastWithin n e)
  | 0, _ => .throw _
  | n + 1, e => by
      have ih := confirmedWithin_endsAlike n
      refine endsAlike_of_confirm ?_
      have hR := EndsAlike.coupling w
      show EndsAlike ((w.withOptions w.options).node _ e) ((w.withOptions w.options).node _ e)
      exact hR.anyNode ih (fun _ => .onTable _) fun op x t _ =>
        hR.unary (ih x) fun _ operand target => hR.rebuildUnary rfl

/-! ## §3  Without validation -/

/-- A conversion is built to its target in any case. -/
theorem rebuildUnary_conversion {op : UnaryOp} {operand : Expr} {t target : Ty}
    (hop : op.isConversion = true) :
    EndsAlike ((w.ignoring false).rebuildUnary op operand t target)
      ((w.ignoring true).rebuildUnary op operand t target) := by
  have hstrict : (w.ignoring false).rebuildUnary op operand t target =
      RecastM.ofChecked (w.types.mkConversion op operand target) := by
    simp [rebuildUnary, ignoring, withOptions, RecastOptions.ignoring, hop, types]
  have hlenient : (w.ignoring true).rebuildUnary op operand t target =
      pure (.unary op operand target) := by
    simp [rebuildUnary, ignoring, withOptions, RecastOptions.ignoring, hop]
  rw [hstrict, hlenient]
  exact .checked fun e he => Registry.mkConversion_eq_ok he

/-- Any other operator has the type of the table, once that is confirmed. -/
theorem rebuildUnary_confirmed {op : UnaryOp} {x operand : Expr} {t target : Ty}
    (hop : op.derivesType = true) :
    EndsAlike
      ((.made <$> (w.ignoring false).rebuildUnary op operand t target) >>=
        (w.ignoring false).confirm (.unary op x t))
      (.made <$> (w.ignoring true).rebuildUnary op operand t target) := by
  obtain ⟨hconversion, hquote⟩ : op.isConversion = false ∧ op ≠ .quote := by
    simpa [UnaryOp.derivesType] using hop
  intro s u out s' hsu h
  obtain ⟨_, _, hmade, hconfirm⟩ := returns_bind.mp h
  obtain ⟨hconfirmed, rfl, rfl⟩ := returns_confirm.mp hconfirm
  obtain ⟨e', he', rfl⟩ := returns_map.mp hmade
  have hstrict : (w.ignoring false).rebuildUnary op operand t target =
      RecastM.ofChecked (w.types.mkUnary op operand) := by
    simp [rebuildUnary, ignoring, withOptions, RecastOptions.ignoring, hconversion, types]
  have hlenient : (w.ignoring true).rebuildUnary op operand t target =
      (.unary op operand ·) <$> w.dataType t := by
    simp [rebuildUnary, ignoring, withOptions, RecastOptions.ignoring, hconversion, dataType, types]
  rw [hstrict] at he'
  obtain ⟨hmk, rfl⟩ := RecastM.returns_ofChecked.mp he'
  obtain ⟨ty, rfl⟩ := Registry.mkUnary_eq_ok hconversion hmk
  have hty : s.table.dataType (w.ignoring false).types t = ty := by
    simpa [isConfirmed, hop, Expr.ty] using hconfirmed
  refine ⟨u.lookUp w.types t, ?_, ⟨hsu.table, hsu.replacements, hsu.fresh⟩⟩
  rw [hlenient]
  refine returns_map.mpr ⟨_, returns_map.mpr ⟨ty, returns_dataType.mpr ⟨?_, rfl⟩, rfl⟩, rfl⟩
  rw [← hsu.table]
  exact hty

/-- Operators that derive their type are no conversions, so constants below them are no case
of their own. -/
theorem unary_eq_operand {op : UnaryOp} {x : Expr} {t : Ty} (hop : op.derivesType = true) :
    w.unary self op x t = w.operand self op x t := by
  cases op <;> simp [UnaryOp.derivesType, UnaryOp.isConversion] at hop <;> rfl

theorem unary_confirmed {op : UnaryOp} {x : Expr} {t : Ty} (hop : op.derivesType = true)
    (h : EndsAlike (self x) (self' x)) :
    EndsAlike
      ((w.ignoring false).unary self op x t >>=
        (w.ignoring false).confirm (.unary op x t))
      ((w.ignoring true).unary self' op x t) := by
  obtain ⟨hconversion, hquote⟩ : op.isConversion = false ∧ op ≠ .quote := by
    simpa [UnaryOp.derivesType] using hop
  rw [unary_eq_operand hop, unary_eq_operand hop, operand, operand, bind_assoc]
  refine .bind h fun out => ?_
  have htarget (ignore : Bool) :
      (w.ignoring ignore).conversionTarget op t = pure t := by
    simp [conversionTarget, hconversion]
  rw [if_neg hquote, if_neg hquote, htarget, htarget, pure_bind, pure_bind]
  by_cases hkept : (out.isKept && t == t) = true
  · rw [if_pos hkept, if_pos hkept]
    exact endsAlike_of_confirm (.pure _)
  · rw [if_neg hkept, if_neg hkept]
    exact rebuildUnary_confirmed hop

theorem confirmedWithin_ignoring : ∀ (n : Nat) (e : Expr),
    EndsAlike ((w.ignoring false).confirmedWithin n e)
      ((w.ignoring true).recastWithin n e)
  | 0, _ => .throw _
  | n + 1, e => by
      have ih := confirmedWithin_ignoring n
      have hR := EndsAlike.coupling w
      show EndsAlike ((w.ignoring false).node _ e >>= _)
        ((w.ignoring true).node _ e)
      by_cases hderives : ∃ op x t, e = .unary op x t ∧ op.derivesType = true
      · -- Only here do the two build different nodes, and only this is confirmed.
        obtain ⟨op, x, t, rfl, hop⟩ := hderives
        exact unary_confirmed hop (ih x)
      · refine endsAlike_of_confirm (hR.anyNode ih (fun _ => .onTable _) fun op x t he => ?_)
        refine hR.unary (ih x) fun hquote operand target => rebuildUnary_conversion ?_
        cases hop : op.isConversion with
        | true => rfl
        | false => exact absurd ⟨op, x, t, he, by simp [UnaryOp.derivesType, hop, hquote]⟩ hderives

end Recaster

namespace LambdaRecaster

section Lambdas

variable (m : LambdaRecaster)

/-- How the expressions below a lambda are recast. -/
def inner (asInclude : Bool) : Recaster :=
  { config := m.config, mapper := m.mapper, options := m.options, asInclude := asInclude }

/-- Recasting of one lambda, given how to recast the expression itself. -/
def recastBy (recastInner : Expr → RecastM Outcome) (e : Expr) (pair : Option TyPair) :
    RecastM Outcome := do
  match e.lambdaParts? with
  | none =>
    throw (.invalidArgument ("expected a lambda expression, found " ++ m.types.tyText e.ty))
  | some (params, _, _) =>
    m.seed params pair
    modify fun s => { s with replacements := {} }
    let o ← recastInner (unquoted e)
    RecastM.ofChecked (m.finish e pair o)

def ignoring (ignore : Bool) : LambdaRecaster := m.withOptions (m.options.ignoring ignore)

theorem recast_eq_recastBy {e : Expr} {pair : Option TyPair} {asInclude ignore : Bool} :
    (m.ignoring ignore).recast e pair asInclude = (m.ignoring ignore).recastBy
      (((m.inner asInclude).ignoring ignore).recastWithin m.options.maxDepth) e pair := rfl

/-- At every unary node that is built with validation and has a derived type, the table has that
type for the type of the node at the time. -/
def Confirmed (e : Expr) (pair : Option TyPair) (asInclude : Bool) (s : RecastState) : Prop :=
  ∃ o s', Returns ((m.ignoring false).recastBy
    (((m.inner asInclude).ignoring false).confirmedWithin m.options.maxDepth) e pair) s o s'

end Lambdas

variable {m : LambdaRecaster} {e : Expr} {pair : Option TyPair} {asInclude : Bool}

theorem seedOnly_endsAlike {model : Ty} : EndsAlike (m.seedOnly model) (m.seedOnly model) := by
  have hR := EndsAlike.coupling (m.inner false)
  refine .bind (hR.checked _) fun found => ?_
  cases found with
  | none => exact .pure _
  | some data => exact .onTable _

theorem seed_endsAlike {params : List Parameter} :
    EndsAlike (m.seed params pair) (m.seed params pair) := by
  have hR := EndsAlike.coupling (m.inner false)
  have hall : ∀ pairs, EndsAlike (m.relateAll pairs) (m.relateAll pairs) := by
    intro pairs
    induction pairs with
    | nil => exact .pure _
    | cons p pairs ih => exact .bind (.onTable _) fun _ => ih
  have hunique : ∀ ps, EndsAlike (m.seedUnique ps) (m.seedUnique ps) := by
    intro ps
    induction ps with
    | nil => exact .pure _
    | cons p ps ih =>
        let step (T : TypeTable) : RecastM Unit :=
          if T.contains p.ty then m.seedUnique ps else m.seedOnly p.ty >>= fun _ => m.seedUnique ps
        have hstep (T : TypeTable) : EndsAlike (step T) (step T) :=
          Coupling.ite ih (.bind seedOnly_endsAlike fun _ => ih)
        exact .readTable hstep
  cases pair with
  | none => exact hunique params
  | some p =>
      refine .bind (hR.checked _) fun source => .bind (hR.checked _) fun target => ?_
      exact Coupling.ite (.throw _) (Coupling.ite (.throw _) (hall _))

theorem recastBy_endsAlike {ignore ignore' : Bool} {f g : Expr → RecastM Outcome}
    (hinner : ∀ e, EndsAlike (f e) (g e)) :
    EndsAlike ((m.ignoring ignore).recastBy f e pair) ((m.ignoring ignore').recastBy g e pair) := by
  unfold recastBy ignoring
  split
  · exact .throw _
  · rw [seed_withOptions, seed_withOptions]
    refine .bind seed_endsAlike fun _ => ?_
    refine .bind (.modify fun _ _ h => ⟨h.table, rfl, h.fresh⟩) fun _ => ?_
    refine .bind (hinner _) fun out => ?_
    exact (EndsAlike.coupling (m.inner false)).checked _

/-- What is recast with validation and confirmed on the way is recast without validation to the
same outcome, and leaves the same table. -/
theorem recast_ignoring {s s' : RecastState} {out : Outcome}
    (hstrict : Returns ((m.ignoring false).recast e pair asInclude) s out s')
    (hconfirmed : m.Confirmed e pair asInclude s) :
    ∃ t, Returns ((m.ignoring true).recast e pair asInclude) s out t ∧ s'.SameRun t := by
  obtain ⟨out', s'', hrun⟩ := hconfirmed
  rw [recast_eq_recastBy] at hstrict ⊢
  obtain ⟨s₁, hvalidated, hsame⟩ :=
    recastBy_endsAlike (Recaster.confirmedWithin_endsAlike _) _ _ _ _ (.refl s) hrun
  obtain ⟨t, hignoring, hsame'⟩ :=
    recastBy_endsAlike (Recaster.confirmedWithin_ignoring _) _ _ _ _ (.refl s) hrun
  have hends := hvalidated.symm.trans hstrict
  cases hends
  exact ⟨t, hignoring, hsame.symm.trans hsame'⟩

/-! ### A code that is a text on the data side -/

namespace Codes

def entry : Ty := .declared 0

def model : Ty := .declared 1

def registry : Registry :=
  { declarations := [.record "Entry" none [⟨"Code", .string⟩, ⟨"Flag", .boolean⟩],
      .record "EntryModel" none [⟨"Code", .boolean⟩, ⟨"Flag", .boolean⟩]] }

/-- `s => s.Code` -/
def readCode : Expr :=
  Registry.mkLambda [⟨0, "s", entry⟩] (.member (.param ⟨0, "s", entry⟩) ⟨"Code", .string⟩)

def recaster : LambdaRecaster :=
  { config := ⟨registry, [{
      source := entry
      destination := model
      rules := [{ member := ⟨"Code", .boolean⟩, custom := some readCode },
        { member := ⟨"Flag", .boolean⟩, source := [⟨"Flag", .boolean⟩] }] }]⟩
    mapper := .keep }

/-- `x => !x.Flag` with this type. -/
def off (x : Parameter) (t : Ty) : Expr :=
  Registry.mkLambda [x] (.unary .not (.member (.param x) ⟨"Flag", .boolean⟩) t)


/-- `x => x.Code` with this type. -/
def code (x : Parameter) (t : Ty) : Expr := Registry.mkLambda [x] (.member (.param x) ⟨"Code", t⟩)

def onModel : Parameter := ⟨1, "m", model⟩

def onEntry : Parameter := ⟨2, "m", entry⟩

def start : RecastState := { fresh := 2 }

/-- The table after the code has been recast: texts stand for truth values. -/
def coded : RecastState := { table := ⟨[(model, entry), (.boolean, .string)]⟩, fresh := 2 }

end Codes

open Codes in
/-- In an empty table the flag stays one in both ways. -/
theorem recast_ignoring_off :
    (∃ s', Returns ((recaster.ignoring false).recast (off onModel .boolean) none false) start
      (.made (off onEntry .boolean)) s') ∧
    recaster.Confirmed (off onModel .boolean) none false start ∧
    ∃ t, Returns ((recaster.ignoring true).recast (off onModel .boolean) none false) start
      (.made (off onEntry .boolean)) t := by
  have hstrict : Returns ((recaster.ignoring false).recast (off onModel .boolean) none false) start
      (.made (off onEntry .boolean))
      (((recaster.ignoring false).recast (off onModel .boolean) none false).run start).2 := rfl
  have hconfirmed : recaster.Confirmed (off onModel .boolean) none false start :=
    ⟨.made (off onEntry .boolean), _, rfl⟩
  obtain ⟨t, ht, -⟩ := recast_ignoring hstrict hconfirmed
  exact ⟨⟨_, hstrict⟩, hconfirmed, t, ht⟩

open Codes in
/-- Once the code has been recast, the flag becomes a text without validation. -/
theorem recast_ignoring_fails :
    (∃ s', Returns ((recaster.ignoring false).recast (code onModel .boolean) none false) start
      (.made (code onEntry .string)) s' ∧ s'.table = coded.table) ∧
    ¬ ∀ (m : LambdaRecaster) (e : Expr) (pair : Option TyPair) (asInclude : Bool)
      (s s' : RecastState) (out : Outcome),
      Returns ((m.ignoring false).recast e pair asInclude) s out s' →
        ∃ t, Returns ((m.ignoring true).recast e pair asInclude) s out t := by
  refine ⟨⟨_, rfl, rfl⟩, fun h => ?_⟩
  have hstrict : Returns ((recaster.ignoring false).recast (off onModel .boolean) none false) coded
      (.made (off onEntry .boolean))
      (((recaster.ignoring false).recast (off onModel .boolean) none false).run coded).2 := rfl
  have hlenient : Returns ((recaster.ignoring true).recast (off onModel .boolean) none false) coded
      (.made (off onEntry .string))
      (((recaster.ignoring true).recast (off onModel .boolean) none false).run coded).2 := rfl
  obtain ⟨t, ht⟩ := h _ _ _ _ _ _ _ hstrict
  have hsame : Except.ok (Outcome.made (off onEntry .boolean)) =
      .ok (.made (off onEntry .string)) := congrArg Prod.fst (ht.symm.trans hlenient)
  have hty := congrArg Expr.ty (Outcome.made.inj (Except.ok.inj hsame))
  exact absurd hty (by decide)

end LambdaRecaster

end Recast
