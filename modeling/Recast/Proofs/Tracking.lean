import Recast.Proofs.EvalDepth
import Recast.Proofs.Grafting

/-! # Evaluations side by side

Two runs of evaluation are compared that end alike, but for some errors of the one or
the other.

- `EvalM.Tracks` — ending alike, with a clause for each way to compose computations.
- `Registry.eval_binds_more` — what is evaluated with some parameters unbound is the same
  whatever they are bound to.
- `Registry.evalComparing` — evaluation that stops where two lambdas are compared.
-/

namespace Recast

/-! ## §1  Ending alike -/

namespace EvalM

/-- How two runs end: well, with related results and their environments as they were, with the same
error, or one of them with an error that it is excused for. -/
inductive Tracked (L R : EvalError → Prop) {α β : Type} (P : α → β → Prop) (env env' : Env) :
    Except EvalError α × Env → Except EvalError β × Env → Prop
  | ok {a b} (h : P a b) : Tracked L R P env env' (.ok a, env) (.ok b, env')
  | error {e s s'} : Tracked L R P env env' (.error e, s) (.error e, s')
  | left {e s run'} (h : L e) : Tracked L R P env env' (.error e, s) run'
  | right {run e s'} (h : R e) : Tracked L R P env env' run (.error e, s')

/-- The two computations end alike, but for the errors `L` of the first and `R` of the second. -/
def Tracks (L R : EvalError → Prop) {α β : Type} (env env' : Env) (P : α → β → Prop) (x : EvalM α)
    (y : EvalM β) : Prop :=
  Tracked L R P env env' (x.run env) (y.run env')

variable {L R : EvalError → Prop} {α β γ δ : Type} {env env' : Env}
variable {P : α → β → Prop} {Q : γ → δ → Prop}

theorem tracks_pure {a : α} {b : β} (h : P a b) : Tracks L R env env' P (pure a) (pure b) := .ok h

theorem tracks_throw {e : EvalError} : Tracks L R env env' P (throw e) (throw e) := .error

theorem tracks_left {e : EvalError} {y : EvalM β} (h : L e) :
    Tracks L R env env' P (throw e) y := .left h

theorem tracks_bind {x : EvalM α} {y : EvalM β} {f : α → EvalM γ} {g : β → EvalM δ}
    (h : Tracks L R env env' P x y) (hf : ∀ a b, P a b → Tracks L R env env' Q (f a) (g b)) :
    Tracks L R env env' Q (x >>= f) (y >>= g) := by
  unfold Tracks at h ⊢
  rw [run_bind, run_bind]
  generalize x.run env = run at h
  generalize y.run env' = run' at h
  cases h with
  | ok hab => exact hf _ _ hab
  | error => exact .error
  | left he => exact .left he
  | right he => exact .right he

theorem tracks_mono {P' : α → β → Prop} {x : EvalM α} {y : EvalM β}
    (h : Tracks L R env env' P x y) (hP : ∀ a b, P a b → P' a b) :
    Tracks L R env env' P' x y := by
  unfold Tracks at h ⊢
  generalize x.run env = run at h
  generalize y.run env' = run' at h
  cases h with
  | ok hab => exact .ok (hP _ _ hab)
  | error => exact .error
  | left he => exact .left he
  | right he => exact .right he

/-- The results of the first computation are ones that it can end with. -/
theorem tracks_and_returns {x : EvalM α} {y : EvalM β} (h : Tracks L R env env' P x y) :
    Tracks L R env env' (fun a b => P a b ∧ Returns x env a env) x y := by
  unfold Tracks at h ⊢
  generalize hrun : x.run env = run at h
  generalize y.run env' = run' at h
  cases h with
  | ok hab => exact .ok ⟨hab, hrun⟩
  | error => exact .error
  | left he => exact .left he
  | right he => exact .right he

theorem tracks_map {x : EvalM α} {y : EvalM β} {f : α → γ} {g : β → δ}
    (h : Tracks L R env env' P x y) (hf : ∀ a b, P a b → Q (f a) (g b)) :
    Tracks L R env env' Q (f <$> x) (g <$> y) := by
  rw [map_eq_pure_bind, map_eq_pure_bind]
  exact tracks_bind h fun a b hab => tracks_pure (hf a b hab)

theorem tracks_ofExcept {x : Except EvalError α} {f : α → β} (h : ∀ a, x = .ok a → P a (f a)) :
    Tracks L R env env' P (ofExcept x) (ofExcept (x.map f)) := by
  cases x with
  | error e => exact tracks_throw
  | ok a => exact tracks_pure (h a rfl)

/-- A frame is closed again, whether or not its computation ended well. -/
theorem tracks_inFrame {frame frame' : List (Nat × Value)} {x : EvalM α} {y : EvalM β}
    (h : Tracks L R (env.push frame) (env'.push frame') P x y) :
    Tracks L R env env' P (inFrame frame x) (inFrame frame' y) := by
  unfold Tracks at h ⊢
  have hrun : ∀ {ε : Type} (frame : List (Nat × Value)) (z : EvalM ε) (e : Env),
      (inFrame frame z).run e = ((z.run (e.push frame)).1, (z.run (e.push frame)).2.pop) :=
    fun _ _ _ => rfl
  rw [hrun, hrun]
  generalize x.run (env.push frame) = run at h
  generalize y.run (env'.push frame') = run' at h
  cases h with
  | ok hab =>
      rw [Scope.pop_push, Scope.pop_push]
      exact .ok hab
  | error => exact .error
  | left he => exact .left he
  | right he => exact .right he

/-- Computations with the same results in environments that `B` relates. -/
def tracking (L : EvalError → Prop) (B : Env → Env → Prop)
    (hpush : ∀ {env env'} frame, B env env' → B (env.push frame) (env'.push frame))
    (hlookup : ∀ {env env'} (p : Parameter), B env env' →
      env'.get? p.id = env.get? p.id ∨ env.get? p.id = none ∧ L (.unboundParameter p.name)) :
    EvalRelation where
  rel x y := ∀ env env', B env env' → Tracks L (fun _ => False) env env' (fun a b => a = b) x y
  pure a _ _ _ := tracks_pure rfl
  throw e _ _ _ := tracks_throw
  bind_of_returns h hf env env' hB := by
    -- both leave their environments as they were, so what follows runs in the same pair
    refine tracks_bind (tracks_and_returns (h env env' hB)) ?_
    rintro a _ ⟨rfl, ha⟩
    exact hf a env env ha env env' hB
  inFrame frame h env env' hB := tracks_inFrame (h _ _ (hpush frame hB))
  lookup p env env' hB := by
    unfold Tracks
    rw [run_lookup, run_lookup]
    rcases hlookup p hB with hsame | ⟨hnone, hL⟩
    · rw [hsame]
      cases env.get? p.id with
      | none => exact .error
      | some v => exact .ok rfl
    · rw [hnone]
      exact .left hL

end EvalM

open EvalM

/-! ## §2  Unbound parameters -/

/-- The environment with these parameters unbound. -/
def Env.without (env : Env) (ids : List Nat) : Env :=
  { bindings := env.bindings.filter fun b => !ids.contains b.1 }

/-- What the first environment binds, the second binds to the same. -/
def Env.Below (env env' : Env) : Prop := ∀ id v, env.get? id = some v → env'.get? id = some v

theorem Scope.get?_push {κ ν : Type} [BEq κ] {s : Scope κ ν} {frame : List (κ × ν)} {k : κ} :
    (s.push frame).get? k = ((frame.reverse.find? (·.1 == k)).map (·.2)).or (s.get? k) := by
  simp only [get?, push, List.find?_append]
  cases frame.reverse.find? (·.1 == k) <;> rfl

theorem Env.get?_without (env : Env) (ids : List Nat) (id : Nat) :
    (env.without ids).get? id = if id ∈ ids then none else env.get? id := by
  unfold without Scope.get?
  rw [List.find?_filter]
  split
  · rename_i hid
    rw [List.find?_eq_none.mpr]
    · rfl
    · rintro ⟨k, v⟩ - hk
      obtain ⟨hk, rfl⟩ : (!ids.contains k) = true ∧ k = id := by simpa using hk
      simp [hid] at hk
  · rename_i hid
    congr 2
    funext ⟨k, v⟩
    by_cases hk : k = id
    · subst hk
      simp [hid]
    · simp [hk]

/-- An environment that agrees outside of the parameters binds what is bound without them. -/
theorem Env.without_below {env env' : Env} {ids : List Nat}
    (h : ∀ id ∉ ids, env'.get? id = env.get? id) : Env.Below (env.without ids) env' := by
  intro id v hv
  rw [get?_without] at hv
  split at hv
  · cases hv
  · rename_i hid
    rw [h id hid, hv]

theorem Env.Below.push {env env' : Env} (frame : List (Nat × Value)) (h : Env.Below env env') :
    Env.Below (env.push frame) (env'.push frame) := by
  intro id v hv
  rw [Scope.get?_push] at hv ⊢
  cases hframe : frame.reverse.find? (·.1 == id) with
  | none =>
      rw [hframe] at hv
      exact h id v hv
  | some b =>
      rw [hframe] at hv
      exact hv

/-- Runs that end alike where the second environment binds more, unless the first reports a
parameter as unbound. -/
def bindingMore : EvalRelation :=
  tracking (fun e => ∃ name, e = .unboundParameter name) Env.Below Env.Below.push <| by
    intro env env' p h
    cases hp : env.get? p.id with
    | none => exact .inr ⟨rfl, p.name, rfl⟩
    | some v => exact .inl (h p.id v hp)

namespace Registry

variable {r : Registry}

theorem eval_bindingMore : ∀ (n : Nat) (e : Expr), bindingMore.rel (r.eval n e) (r.eval n e)
  | 0, _ => bindingMore.throw .tooDeep
  | n + 1, e => bindingMore.evalNode (eval_bindingMore n) e

/-- A value stays the same when more parameters are bound. -/
theorem eval_binds_more {n : Nat} {e : Expr} {env env' : Env} {v : Value} (h : Env.Below env env')
    (hv : Returns (r.eval n e) env v env) : Returns (r.eval n e) env' v env' := by
  have htracks := eval_bindingMore (r := r) n e env env' h
  unfold EvalM.Tracks at htracks
  rw [hv] at htracks
  generalize hrun : (r.eval n e).run env' = run at htracks
  cases htracks with
  | ok hsame => exact hsame ▸ hrun
  | right hfalse => exact hfalse.elim

end Registry

/-! ## §3  Comparing lambdas -/

/-- Looking for the second argument among the items of the first comes to two lambdas. -/
def itemsMeet : List Value → Bool
  | .list items :: v :: _ => items.any (·.meets v)
  | _ => false

/-- Comparing the receiver to the first argument comes to two lambdas. -/
def receiverMeets : Option Value → List Value → Bool
  | some v, w :: _ => v.meets w
  | _, _ => false

/-- Comparing the operands of the method comes to two lambdas. -/
def Method.meets (m : Method) (receiver? : Option Value) (args : List Value) : Bool :=
  if m.declaring == "Enumerable" || m.declaring == "Queryable" then
    m.name == "Contains" && itemsMeet args
  else m.name == "Equals" && receiverMeets receiver? args

/-- Where two lambdas are compared.  Equality itself refuses no operands. -/
def lambdasCompared : EvalError := .badOperands "==" "<lambda>" "<lambda>"

namespace Registry

variable (r : Registry)

section Nodes

variable (self : Expr → EvalM Value)

/-- The value of an equality, or an error if two lambdas are compared for it. -/
def equalityComparing (integral : Bool) (op : BinaryOp) (left right : Expr) : EvalM Value := do
  let a ← self left
  let b ← self right
  if a.meets b then throw lambdasCompared
  else EvalM.ofExcept (operatorValue integral op a b)

def methodComparing (m : Method) (receiver? : Option Value) (args : List Value) : EvalM Value :=
  if m.meets receiver? args then throw lambdasCompared else methodValue self m receiver? args

/-- The value of a node, or an error if two lambdas are compared for it. -/
def nodeComparing (e : Expr) : EvalM Value :=
  match e with
  | .binary .equal left right _ ty => equalityComparing self (r.isIntegral ty) .equal left right
  | .binary .notEqual left right _ ty =>
    equalityComparing self (r.isIntegral ty) .notEqual left right
  | .call none m args => do
    let values ← args.mapM self
    methodComparing self m none values
  | .call (some target) m args => do
    let receiver ← self target
    let values ← args.mapM self
    methodComparing self m (some receiver) values
  | e => r.evalNode self e

end Nodes

/-- Evaluation that stops where two lambdas are compared. -/
def evalComparing : Nat → Expr → EvalM Value
  | 0, _ => throw .tooDeep
  | n + 1, e => r.nodeComparing (evalComparing n) e

end Registry

variable {r : Registry} {self self' : Expr → EvalM Value}

namespace EvalRelation

variable (S : EvalRelation) (hself : ∀ e, S.rel (self e) (self' e))
include hself

theorem equalityComparing (integral : Bool) (op : BinaryOp) (left right : Expr) :
    S.rel (Registry.equalityComparing self integral op left right)
      (Registry.equalityComparing self' integral op left right) := by
  refine S.bind (hself left) fun a => S.bind (hself right) fun b => ?_
  split
  · exact S.throw _
  · exact S.ofExcept _

theorem methodComparing (m : Method) (receiver? : Option Value) (args : List Value) :
    S.rel (Registry.methodComparing self m receiver? args)
      (Registry.methodComparing self' m receiver? args) := by
  unfold Registry.methodComparing
  split
  · exact S.throw _
  · exact S.methodValue hself m receiver? args

theorem nodeComparing (e : Expr) :
    S.rel (r.nodeComparing self e) (r.nodeComparing self' e) := by
  have hargs := S.mapM hself
  unfold Registry.nodeComparing
  split
  · exact S.equalityComparing hself _ _ _ _
  · exact S.equalityComparing hself _ _ _ _
  · exact S.bind (hargs _) fun _ => S.methodComparing hself _ _ _
  · exact S.bind (hself _) fun _ => S.bind (hargs _) fun _ => S.methodComparing hself _ _ _
  · exact S.evalNode hself _

end EvalRelation

/-- Runs that end alike in one environment, unless the first stops where lambdas are compared. -/
def stopping : EvalRelation :=
  tracking (· = lambdasCompared) (fun env env' => env = env') (fun _ h => h ▸ rfl)
    fun _ h => h ▸ .inl rfl

namespace Registry

theorem equalityComparing_stopping (hself : ∀ e, stopping.rel (self e) (self' e)) (integral : Bool)
    (op : BinaryOp) (left right : Expr) :
    stopping.rel (equalityComparing self integral op left right)
      (do let a ← self' left
          let b ← self' right
          EvalM.ofExcept (operatorValue integral op a b)) := by
  refine stopping.bind (hself left) fun a => stopping.bind (hself right) fun b => ?_
  split
  · exact fun _ _ _ => tracks_left rfl
  · exact stopping.ofExcept _

theorem methodComparing_stopping (hself : ∀ e, stopping.rel (self e) (self' e)) (m : Method)
    (receiver? : Option Value) (args : List Value) :
    stopping.rel (methodComparing self m receiver? args) (methodValue self' m receiver? args) := by
  unfold methodComparing
  split
  · exact fun _ _ _ => tracks_left rfl
  · exact stopping.methodValue hself m receiver? args

theorem nodeComparing_stopping (hself : ∀ e, stopping.rel (self e) (self' e)) (e : Expr) :
    stopping.rel (r.nodeComparing self e) (r.evalNode self' e) := by
  have hargs := stopping.mapM hself
  unfold nodeComparing
  split
  · exact equalityComparing_stopping hself _ _ _ _
  · exact equalityComparing_stopping hself _ _ _ _
  · exact stopping.bind (hargs _) fun _ => methodComparing_stopping hself _ _ _
  · exact stopping.bind (hself _) fun _ => stopping.bind (hargs _) fun _ =>
      methodComparing_stopping hself _ _ _
  · exact stopping.evalNode hself _

theorem evalComparing_deepens : ∀ {n n' : Nat}, n ≤ n' → ∀ e,
    Deepens (r.evalComparing n e) (r.evalComparing n' e)
  | 0, _, _, _ => .tooDeep _
  | n + 1, n' + 1, h, e =>
    have hbelow : ∀ e, deepens.rel (r.evalComparing n e) (r.evalComparing n' e) :=
      evalComparing_deepens (Nat.le_of_succ_le_succ h)
    deepens.nodeComparing hbelow e

/-- Evaluation that stops where two lambdas are compared is evaluation up to there. -/
theorem evalComparing_stopping : ∀ (n : Nat) (e : Expr),
    stopping.rel (r.evalComparing n e) (r.eval n e)
  | 0, _ => stopping.throw .tooDeep
  | n + 1, e => nodeComparing_stopping (evalComparing_stopping n) e

end Registry

end Recast
