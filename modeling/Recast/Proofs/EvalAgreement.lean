import Mathlib.Data.List.Forall2
import Recast.Eval.Basic
import Recast.Proofs.DataValues
import Recast.Proofs.Lockstep
import Recast.Proofs.Nodes
import Recast.Proofs.Run

/-! # Two evaluations side by side

An expression over a parameter is compared with the expression that has another
one in the place of that parameter.  Nested evaluations go deeper in the second,
so that either may be refused where the other is not; what can be said is that
they agree whenever both end well (`EvalM.Agree`).

- `Linked` — the environments: the first binds the parameter to the value that
  the other expression has over the root bound in the second.
- `Receives` — what is asked of the expression: lambdas stand where they are
  applied, and none binds the parameter or the root.
- `eval_agree` — the two evaluations agree.
-/

namespace Recast

/-! ## §1  Agreement of computations -/

/-- The values are the same and hold no lambdas. -/
def Same (v w : Value) : Prop := v = w ∧ v.isData = true

def SameAll (vs ws : List Value) : Prop := vs = ws ∧ ∀ v ∈ vs, v.isData = true

theorem SameAll.cons {v w : Value} {vs ws : List Value} (h : Same v w) (hs : SameAll vs ws) :
    SameAll (v :: vs) (w :: ws) := by
  obtain ⟨rfl, hv⟩ := h
  obtain ⟨rfl, hvs⟩ := hs
  refine ⟨rfl, ?_⟩
  rintro x (_ | ⟨_, hx⟩)
  · exact hv
  · exact hvs x hx

theorem SameAll.list {vs ws : List Value} (h : SameAll vs ws) : Same (.list vs) (.list ws) := by
  obtain ⟨rfl, hvs⟩ := h
  exact ⟨rfl, Value.isData_list.mpr hvs⟩

namespace EvalM

variable {α β γ δ : Type} {E E' : Env → Env → Prop} {P : α → β → Prop} {Q : γ → δ → Prop}

/-- From related environments the computations can only end well with related results, and
both leave their environment as it was. -/
def Agree (E : Env → Env → Prop) (P : α → β → Prop) (x : EvalM α) (y : EvalM β) : Prop :=
  ∀ ⦃env env' a b e e'⦄, E env env' → Returns x env a e → Returns y env' b e' →
    P a b ∧ e = env ∧ e' = env'

theorem agree_pure {a : α} {b : β} (h : P a b) : Agree E P (pure a) (pure b) := by
  intro env env' a' b' e e' _ hx hy
  obtain ⟨rfl, rfl⟩ := returns_pure.mp hx
  obtain ⟨rfl, rfl⟩ := returns_pure.mp hy
  exact ⟨h, rfl, rfl⟩

theorem agree_throw_left {x : EvalError} {y : EvalM β} : Agree E P (throw x) y :=
  fun _ _ _ _ _ _ _ hx _ => absurd hx returns_throw

theorem agree_throw_right {x : EvalM α} {y : EvalError} : Agree E P x (throw y) :=
  fun _ _ _ _ _ _ _ _ hy => absurd hy returns_throw

theorem agree_bind {x : EvalM α} {y : EvalM β} {f : α → EvalM γ} {g : β → EvalM δ}
    (h : Agree E P x y) (hf : ∀ a b, P a b → Agree E Q (f a) (g b)) :
    Agree E Q (x >>= f) (y >>= g) := by
  intro env env' c d e e' henv hx hy
  obtain ⟨a, e₁, ha, hc⟩ := returns_bind.mp hx
  obtain ⟨b, e₁', hb, hd⟩ := returns_bind.mp hy
  obtain ⟨hab, rfl, rfl⟩ := h henv ha hb
  exact hf a b hab henv hc hd

theorem Agree.mono {P' : α → β → Prop} {x : EvalM α} {y : EvalM β} (h : Agree E P x y)
    (hP : ∀ a b, P a b → P' a b) : Agree E P' x y := by
  intro env env' a b e e' henv hx hy
  obtain ⟨hab, hrest⟩ := h henv hx hy
  exact ⟨hP a b hab, hrest⟩

theorem agree_map {x : EvalM α} {y : EvalM β} {f : α → γ} {g : β → δ}
    (h : Agree E P x y) (hf : ∀ a b, P a b → Q (f a) (g b)) :
    Agree E Q (f <$> x) (g <$> y) := by
  rw [map_eq_pure_bind, map_eq_pure_bind]
  exact agree_bind h fun a b hab => agree_pure (hf a b hab)

@[simp] theorem returns_ofExcept {x : Except EvalError α} {env env' : Env} {a : α} :
    Returns (ofExcept x) env a env' ↔ x = .ok a ∧ env = env' := by
  cases x with
  | error e => simp [ofExcept]
  | ok b => simp [ofExcept]

theorem agree_ofExcept {x : Except EvalError α} {y : Except EvalError β}
    (h : ∀ a b, x = .ok a → y = .ok b → P a b) : Agree E P (ofExcept x) (ofExcept y) := by
  intro env env' a b e e' _ hx hy
  obtain ⟨ha, rfl⟩ := returns_ofExcept.mp hx
  obtain ⟨hb, rfl⟩ := returns_ofExcept.mp hy
  exact ⟨h a b ha hb, rfl, rfl⟩

theorem returns_inFrame {frame : List (Nat × Value)} {x : EvalM α} {env env' : Env} {a : α} :
    Returns (inFrame frame x) env a env' ↔
      ∃ e, Returns x (env.push frame) a e ∧ e.pop = env' := by
  simp only [Returns, inFrame, ExceptT.run]
  rcases x (env.push frame) with ⟨r, e⟩
  constructor
  · intro h
    cases h
    exact ⟨e, rfl, rfl⟩
  · rintro ⟨e', h, rfl⟩
    cases h
    rfl

/-- A frame is closed again, so agreement within frames is agreement around them. -/
theorem agree_inFrame {frame frame' : List (Nat × Value)} {x : EvalM α} {y : EvalM β}
    (hpush : ∀ env env', E env env' → E' (env.push frame) (env'.push frame'))
    (h : Agree E' P x y) : Agree E P (inFrame frame x) (inFrame frame' y) := by
  intro env env' a b e e' henv hx hy
  obtain ⟨e₁, ha, rfl⟩ := returns_inFrame.mp hx
  obtain ⟨e₁', hb, rfl⟩ := returns_inFrame.mp hy
  obtain ⟨hab, rfl, rfl⟩ := h (hpush env env' henv) ha hb
  exact ⟨hab, Scope.pop_push _ _, Scope.pop_push _ _⟩

end EvalM

open EvalM

/-! ## §2  Linked environments and what receives an expression -/

/-- What the first environment binds `p` to is `u`, and then the second binds `d` to `row`; what
the first binds besides is data that the second binds too. -/
structure Linked (p : Nat) (u : Value) (d : Nat) (row : Value) (env env' : Env) : Prop where
  value : ∀ v, env.get? p = some v → v = u ∧ env'.get? d = some row
  others : ∀ k v, k ≠ p → k ≠ d → env.get? k = some v → env'.get? k = some v ∧ v.isData = true

theorem Scope.get?_push_of_not_mem {env : Env} {frame : List (Nat × Value)} {k : Nat}
    (h : ∀ b ∈ frame, b.1 ≠ k) : (env.push frame).get? k = env.get? k := by
  have hnone : frame.reverse.find? (·.1 == k) = none := by
    rw [List.find?_eq_none]
    intro b hb
    simpa using h b (List.mem_reverse.mp hb)
  simp only [Scope.get?, Scope.push, List.find?_append, hnone, Option.none_or]

theorem Linked.push {p d : Nat} {u row : Value} {env env' : Env} {frame : List (Nat × Value)}
    (h : Linked p u d row env env')
    (hframe : ∀ b ∈ frame, b.1 ≠ p ∧ b.1 ≠ d ∧ b.2.isData = true) :
    Linked p u d row (env.push frame) (env'.push frame) where
  value v hv := by
    rw [Scope.get?_push_of_not_mem fun b hb => (hframe b hb).1] at hv
    rw [Scope.get?_push_of_not_mem fun b hb => (hframe b hb).2.1]
    exact h.value v hv
  others k v hp hd hk := by
    simp only [Scope.get?, Scope.push, List.find?_append] at hk ⊢
    cases hfind : frame.reverse.find? (·.1 == k) with
    | some b =>
        simp only [hfind, Option.some_or, Option.map_some] at hk ⊢
        obtain rfl := Option.some.inj hk
        exact ⟨rfl, (hframe b (List.mem_reverse.mp (List.mem_of_find?_eq_some hfind))).2.2⟩
    | none =>
        simp only [hfind, Option.none_or] at hk ⊢
        exact h.others k v hp hd hk

namespace Expr

/-- A lambda, quoted or not. -/
def isFunction : Expr → Bool
  | .lambda _ _ _ => true
  | .unary .quote _ _ => true
  | _ => false

/-- Lambdas below the node stand where it applies them: as arguments of sequence operators, as
the conversion of a coalescing operator, as the function of an invocation, under a quote. -/
def appliesFunctions : Expr → Bool
  | .const v _ => v.isData
  | .call target m args =>
    target.all (!·.isFunction) &&
      (m.declaring == "Enumerable" || m.declaring == "Queryable" || args.all (!·.isFunction))
  | .binary _ left right _ _ => !left.isFunction && !right.isFunction
  | .invoke _ args _ => args.all (!·.isFunction)
  | .unary .quote e _ => e.isFunction
  | e => e.children.all (!·.isFunction)

/-- The expression can have one of type `t` over the root `d` in the place of its parameter `p`. -/
structure Receives (p d : Nat) (t : Ty) (e : Expr) : Prop where
  applies : ∀ n ∈ e.nodes, n.appliesFunctions = true
  binds : ∀ ps body ty, .lambda ps body ty ∈ e.nodes → ∀ q ∈ ps, q.id ≠ p ∧ q.id ≠ d
  refers : ∀ q, .param q ∈ e.nodes → q.id ≠ d
  types : RefersAs p t e

namespace Receives

variable {p d : Nat} {t : Ty} {e c : Expr}

theorem child (h : Receives p d t e) (hc : c ∈ e.children) : Receives p d t c where
  applies n hn := h.applies n (nodes_subset_of_child hc hn)
  binds ps body ty hn := h.binds ps body ty (nodes_subset_of_child hc hn)
  refers q hq := h.refers q (nodes_subset_of_child hc hq)
  types := h.types.child hc

theorem here (h : Receives p d t e) : e.appliesFunctions = true := h.applies e (mem_nodes_self e)

end Receives

end Expr

/-- Every evaluation with the root bound to the row has this value. -/
def Registry.Yields (r : Registry) (d : Nat) (row : Value) (e : Expr) (u : Value) : Prop :=
  ∀ ⦃n env v env'⦄, env.get? d = some row → Returns (r.eval n e) env v env' → v = u ∧ env' = env

/-! ## §3  Applying lambdas -/

/-- Two lambda values of which the second has `a` in the place of `p`. -/
def SameFunction (p d : Nat) (a : Expr) (v w : Value) : Prop :=
  ∃ ps body ty, Expr.Receives p d a.ty (.lambda ps body ty) ∧
    v = .lambda (.lambda ps body ty) ∧
    w = .lambda (.lambda ps (Expr.substitute p a body) ty)

def SameArgument (p d : Nat) (a : Expr) (v w : Value) : Prop :=
  Same v w ∨ SameFunction p d a v w

/-- What two computations agree on goes through the sequence operators. -/
def agreeLockstep (p d : Nat) (u row : Value) : Lockstep where
  ends P x y := Agree (Linked p u d row) (fun v w => v = w ∧ P v) x y
  ends_pure h := agree_pure ⟨rfl, h⟩
  ends_throw := fun _ h _ => absurd h returns_throw
  ends_bind h hf := by
    refine agree_bind h ?_
    rintro v _ ⟨rfl, hv⟩
    exact hf v hv

section Apply

variable {p d : Nat} {u row : Value} {a : Expr} {self self' : Expr → EvalM Value}
variable (hself : ∀ e, Expr.Receives p d a.ty e → e.isFunction = false →
  Agree (Linked p u d row) Same (self e) (self' (Expr.substitute p a e)))
variable {f f' : Value} (hf : SameArgument p d a f f')

include hself in
theorem applyLambda_agree {ps : List Parameter} {body : Expr} {ty : Ty} {vs ws : List Value}
    (hbody : Expr.Receives p d a.ty (.lambda ps body ty)) (hvs : SameAll vs ws) :
    Agree (Linked p u d row) Same (applyLambda self (.lambda ps body ty) vs)
      (applyLambda self' (.lambda ps (Expr.substitute p a body) ty) ws) := by
  obtain ⟨rfl, hdata⟩ := hvs
  have hfun : body.isFunction = false := by simpa [Expr.appliesFunctions, Expr.children] using hbody.here
  refine agree_inFrame (fun env env' henv => henv.push ?_)
    (hself body (hbody.child (by simp [Expr.children])) hfun)
  rintro ⟨k, v⟩ hb
  obtain ⟨hk, hv⟩ := List.of_mem_zip hb
  obtain ⟨q, hq, rfl⟩ := List.mem_map.mp hk
  obtain ⟨hp, hd⟩ := hbody.binds ps body ty (Expr.mem_nodes_self _) q hq
  exact ⟨hp, hd, hdata v hv⟩

include hself hf in
theorem applyValue_agree {vs ws : List Value} (hvs : SameAll vs ws) :
    Agree (Linked p u d row) Same (applyValue self f vs) (applyValue self' f' ws) := by
  rcases hf with ⟨rfl, hdata⟩ | ⟨ps, body, ty, hbody, rfl, rfl⟩
  · cases f with
    | lambda e => simp [Value.isData] at hdata
    | _ => exact agree_throw_left
  · exact applyLambda_agree hself hbody hvs

theorem sameAll_singleton {v : Value} (h : v.isData = true) : SameAll [v] [v] :=
  ⟨rfl, by simpa using h⟩

/-! ## §4  Methods -/

/-- A lambda is no number and no item of a list of data. -/
theorem SameFunction.asInt64? {v w : Value} (h : SameFunction p d a v w) :
    v.asInt64? = none ∧ w.asInt64? = none := by
  obtain ⟨ps, body, ty, -, rfl, rfl⟩ := h
  exact ⟨rfl, rfl⟩

theorem not_sameValue_lambda {v : Value} {e : Expr} (hv : v.isData = true) :
    v.sameValue (.lambda e) = false := by
  cases v with
  | lambda e' => simp [Value.isData] at hv
  | _ => rfl

theorem isData_of_operatorResult {name : String} {v : Value}
    (h : operatorResult (·.isData = true) (·.isData = true) name v) : v.isData = true := by
  rcases operatorResult_cases h with (⟨b, rfl⟩ | ⟨n, rfl⟩) | ⟨vs, rfl, h | h⟩ | rfl | h | h
  · rfl
  · rfl
  · exact Value.isData_list.mpr h
  · exact Value.isData_list.mpr h
  · rfl
  · exact h
  · exact h

include hself in
theorem sequenceOperator_agree {name : String} {items : List Value} {arg? arg?' : Option Value}
    (hitems : ∀ v ∈ items, v.isData = true) (harg : Option.Rel (SameArgument p d a) arg? arg?') :
    Agree (Linked p u d row) Same (sequenceOperator self name items arg?)
      (sequenceOperator self' name items arg?') := by
  have hcount : arg?.bind Value.asInt64? = arg?'.bind Value.asInt64? := by
    cases harg with
    | none => rfl
    | some h =>
        rcases h with ⟨rfl, -⟩ | h
        · rfl
        · simp [h.asInt64?]
  have hcontains : (arg?.any fun v => items.any (·.sameValue v)) =
      (arg?'.any fun v => items.any (·.sameValue v)) := by
    cases harg with
    | none => rfl
    | some h =>
        rcases h with ⟨rfl, -⟩ | ⟨ps, body, ty, -, rfl, rfl⟩
        · rfl
        · have hnone : ∀ e, items.any (·.sameValue (.lambda e)) = false := by
            intro e
            rw [List.any_eq_false]
            intro v hv
            simp [not_sameValue_lambda (hitems v hv)]
          simp [hnone]
  have happlies : Option.Rel
      ((agreeLockstep p d u row).Applies self self' (·.isData = true) (·.isData = true))
      arg? arg?' := by
    cases harg with
    | none => exact .none
    | some h =>
        refine .some fun item hitem => ?_
        exact applyValue_agree hself h (sameAll_singleton hitem)
  have hends : Agree (Linked p u d row)
      (fun v w => v = w ∧ operatorResult (·.isData = true) (·.isData = true) name v)
      (sequenceOperator self name items arg?) (sequenceOperator self' name items arg?') :=
    (agreeLockstep p d u row).ends_sequenceOperator happlies hcount (fun _ => hcontains) hitems
  exact hends.mono fun v w h => ⟨h.1, isData_of_operatorResult h.2⟩

include hself in
/-- Methods other than sequence operators take data only. -/
theorem methodValue_agree {m : Method} {receiver? : Option Value} {vs ws : List Value}
    (hvs : List.Forall₂ (SameArgument p d a) vs ws)
    (hdata : (m.declaring == "Enumerable" || m.declaring == "Queryable") = false →
      SameAll vs ws) :
    Agree (Linked p u d row) Same (methodValue self m receiver? vs)
      (methodValue self' m receiver? ws) := by
  unfold methodValue
  cases hsequence : m.declaring == "Enumerable" || m.declaring == "Queryable" with
  | true =>
      simp only [if_true]
      cases hvs with
      | nil => exact agree_throw_left
      | @cons v w vs ws hv hvs =>
          rcases hv with ⟨rfl, hv⟩ | ⟨ps, body, ty, -, rfl, rfl⟩
          · cases v with
            | list items =>
                refine sequenceOperator_agree hself (Value.isData_list.mp hv) ?_
                cases hvs with
                | nil => exact .none
                | cons h _ => exact .some h
            | null => exact agree_throw_left
            | _ => exact agree_throw_left
          · exact agree_throw_left
  | false =>
      obtain ⟨rfl, hvs⟩ := hdata hsequence
      simp only [Bool.false_eq_true, if_false]
      split
      · exact agree_throw_left
      · split
        · refine agree_ofExcept fun v w hv hw => ?_
          exact ⟨Except.ok.inj (hv.symm.trans hw), textMethod_isData hv⟩
        · refine agree_ofExcept fun v w hv hw => ?_
          exact ⟨Except.ok.inj (hv.symm.trans hw), objectMethod_isData hv⟩
        · refine agree_ofExcept fun v w hv hw => ?_
          exact ⟨Except.ok.inj (hv.symm.trans hw), objectMethod_isData hv⟩
        · exact agree_throw_left
      · exact agree_throw_left

/-! ## §5  Nodes -/

variable (hfun : ∀ e, Expr.Receives p d a.ty e → e.isFunction = true →
  Agree (Linked p u d row) (SameFunction p d a) (self e) (self' (Expr.substitute p a e)))

include hself hfun in
theorem self_agree {e : Expr} (he : Expr.Receives p d a.ty e) :
    Agree (Linked p u d row) (SameArgument p d a) (self e) (self' (Expr.substitute p a e)) := by
  intro env env' v w e₁ e₁' henv hv hw
  cases hfunction : e.isFunction with
  | true =>
      obtain ⟨h, hrest⟩ := hfun e he hfunction henv hv hw
      exact ⟨.inr h, hrest⟩
  | false =>
      obtain ⟨h, hrest⟩ := hself e he hfunction henv hv hw
      exact ⟨.inl h, hrest⟩

include hself hfun in
theorem arguments_agree : ∀ {args : List Expr}, (∀ e ∈ args, Expr.Receives p d a.ty e) →
    Agree (Linked p u d row) (List.Forall₂ (SameArgument p d a)) (args.mapM self)
      ((args.map (Expr.substitute p a)).mapM self')
  | [], _ => agree_pure .nil
  | arg :: args, hargs => by
      rw [List.map_cons, List.mapM_cons, List.mapM_cons]
      refine agree_bind (self_agree hself hfun (hargs arg List.mem_cons_self)) ?_
      intro v w hv
      refine agree_bind (arguments_agree fun e he => hargs e (List.mem_cons_of_mem _ he)) ?_
      intro vs ws hvs
      exact agree_pure (.cons hv hvs)

include hself in
theorem dataArguments_agree : ∀ {args : List Expr}, (∀ e ∈ args, Expr.Receives p d a.ty e) →
    args.all (!·.isFunction) = true →
      Agree (Linked p u d row) SameAll (args.mapM self)
        ((args.map (Expr.substitute p a)).mapM self')
  | [], _, _ => agree_pure ⟨rfl, by simp⟩
  | arg :: args, hargs, hdata => by
      simp only [List.all_cons, Bool.and_eq_true, Bool.not_eq_true'] at hdata
      rw [List.map_cons, List.mapM_cons, List.mapM_cons]
      refine agree_bind (hself arg (hargs arg List.mem_cons_self) hdata.1) ?_
      intro v w hv
      refine agree_bind
        (dataArguments_agree (fun e he => hargs e (List.mem_cons_of_mem _ he)) hdata.2) ?_
      intro vs ws hvs
      exact agree_pure (SameAll.cons hv hvs)

theorem forall₂_sameArgument {vs ws : List Value} (h : SameAll vs ws) :
    List.Forall₂ (SameArgument p d a) vs ws := by
  obtain ⟨rfl, hvs⟩ := h
  exact List.forall₂_same.mpr fun v hv => .inl ⟨rfl, hvs v hv⟩

include hself hfun in
theorem callArguments_agree {target : Option Expr} {m : Method} {args : List Expr}
    (he : Expr.Receives p d a.ty (.call target m args)) :
    Agree (Linked p u d row)
      (fun vs ws => List.Forall₂ (SameArgument p d a) vs ws ∧
        ((m.declaring == "Enumerable" || m.declaring == "Queryable") = false → SameAll vs ws))
      (args.mapM self) ((args.map (Expr.substitute p a)).mapM self') := by
  have hargs : ∀ e ∈ args, Expr.Receives p d a.ty e := fun e hmem =>
    he.child (by simp [Expr.children, hmem])
  have happlies := he.here
  simp only [Expr.appliesFunctions, Bool.and_eq_true, Bool.or_eq_true] at happlies
  intro env env' vs ws e e' henv hvs hws
  cases hsequence : m.declaring == "Enumerable" || m.declaring == "Queryable" with
  | true =>
      obtain ⟨h, hrest⟩ := arguments_agree hself hfun hargs henv hvs hws
      exact ⟨⟨h, by simp⟩, hrest⟩
  | false =>
      have hdata : args.all (!·.isFunction) = true := by
        rcases happlies.2 with h | h
        · rw [← Bool.or_eq_true, hsequence] at h
          cases h
        · exact h
      obtain ⟨h, hrest⟩ := dataArguments_agree hself hargs hdata henv hvs hws
      exact ⟨⟨forall₂_sameArgument h, fun _ => h⟩, hrest⟩

include hself in
theorem initValues_agree : ∀ {inits : List (String × Expr)} {done done' : List (String × Value)},
    (∀ i ∈ inits, Expr.Receives p d a.ty i.2 ∧ i.2.isFunction = false) →
      done = done' ∧ (∀ f ∈ done, f.2.isData = true) →
        Agree (Linked p u d row) (fun fs gs => fs = gs ∧ ∀ f ∈ fs, f.2.isData = true)
          (Registry.initValues self inits done)
          (Registry.initValues self' (inits.map fun i => (i.1, Expr.substitute p a i.2)) done')
  | [], _, _, _, hdone => agree_pure hdone
  | (name, e) :: inits, done, _, hinits, ⟨rfl, hdone⟩ => by
      obtain ⟨he, hdata⟩ := hinits _ List.mem_cons_self
      refine agree_bind (hself e he hdata) ?_
      rintro v _ ⟨rfl, hv⟩
      exact initValues_agree (fun i hi => hinits i (List.mem_cons_of_mem _ hi))
        ⟨rfl, Value.isData_putField hdone hv⟩

end Apply

/-- A lambda under quotes, before and after an expression was put in. -/
theorem Expr.Receives.lambdaParts? {p d : Nat} {a : Expr} : ∀ {e : Expr},
    Expr.Receives p d a.ty e → e.isFunction = true →
      ∃ ps body ty, e.lambdaParts? = some (ps, body, ty) ∧
        (Expr.substitute p a e).lambdaParts? = some (ps, Expr.substitute p a body, ty) ∧
        Expr.Receives p d a.ty (.lambda ps body ty) := by
  intro e
  induction e using Expr.lambdaParts?.induct with
  | case1 ps body ty =>
      intro he _
      exact ⟨ps, body, ty, rfl, rfl, he⟩
  | case2 e ty ih =>
      intro he _
      obtain ⟨ps, body, ty', hparts, hparts', hbody⟩ :=
        ih (he.child (by simp [Expr.children])) (by simpa [Expr.appliesFunctions] using he.here)
      refine ⟨ps, body, ty', hparts, ?_, hbody⟩
      rw [Expr.substitute, Expr.lambdaParts?]
      exact hparts'
  | case3 e hlambda hquote =>
      intro _ hfunction
      unfold Expr.isFunction at hfunction
      split at hfunction
      · exact absurd rfl (hlambda _ _ _)
      · exact absurd rfl (hquote _ _)
      · cases hfunction

theorem Expr.lambdaParts?_of_not_function {e : Expr} (h : e.isFunction = false) :
    e.lambdaParts? = none := by
  unfold Expr.lambdaParts?
  split
  · simp [Expr.isFunction] at h
  · simp [Expr.isFunction] at h
  · rfl

namespace Registry

section Nodes

variable {r : Registry} {p d : Nat} {u row : Value} {a : Expr} {self self' : Expr → EvalM Value}
variable (hself : ∀ e, Expr.Receives p d a.ty e → e.isFunction = false →
  Agree (Linked p u d row) Same (self e) (self' (Expr.substitute p a e)))
variable (hfun : ∀ e, Expr.Receives p d a.ty e → e.isFunction = true →
  Agree (Linked p u d row) (SameFunction p d a) (self e) (self' (Expr.substitute p a e)))

include hself in
theorem unaryValue_agree {op : UnaryOp} {operand : Expr} {ty : Ty}
    (he : Expr.Receives p d a.ty (.unary op operand ty))
    (hdata : (Expr.unary op operand ty).isFunction = false) :
    Agree (Linked p u d row) Same (r.unaryValue self op operand ty)
      (r.unaryValue self' op (Expr.substitute p a operand) ty) := by
  have hoperand := he.child (c := operand) (by simp [Expr.children])
  have hty := Expr.ty_substitute hoperand.types
  have happlies := he.here
  cases op with
  | quote => simp [Expr.isFunction] at hdata
  | convert | convertChecked =>
      refine agree_bind
        (hself operand hoperand (by simpa [Expr.appliesFunctions, Expr.children] using happlies)) ?_
      rintro v _ ⟨rfl, hv⟩
      dsimp only
      rw [hty]
      exact agree_ofExcept fun w w' hw hw' =>
        ⟨Except.ok.inj (hw.symm.trans hw'), castValue_isData hv hw⟩
  | typeAs =>
      refine agree_bind
        (hself operand hoperand (by simpa [Expr.appliesFunctions, Expr.children] using happlies)) ?_
      rintro v _ ⟨rfl, hv⟩
      dsimp only
      rw [hty]
      refine agree_pure ⟨rfl, ?_⟩
      split
      · exact hv
      · rfl
  | not =>
      refine agree_bind
        (hself operand hoperand (by simpa [Expr.appliesFunctions, Expr.children] using happlies)) ?_
      rintro v _ ⟨rfl, -⟩
      exact agree_ofExcept fun w w' hw hw' =>
        ⟨Except.ok.inj (hw.symm.trans hw'), negation_isData hw⟩
  | negate =>
      refine agree_bind
        (hself operand hoperand (by simpa [Expr.appliesFunctions, Expr.children] using happlies)) ?_
      rintro v _ ⟨rfl, -⟩
      exact agree_ofExcept fun w w' hw hw' =>
        ⟨Except.ok.inj (hw.symm.trans hw'), negated_isData hw⟩
  | arrayLength =>
      refine agree_bind
        (hself operand hoperand (by simpa [Expr.appliesFunctions, Expr.children] using happlies)) ?_
      rintro v _ ⟨rfl, -⟩
      dsimp only
      split
      · exact agree_pure ⟨rfl, rfl⟩
      · exact agree_throw_left

include hself in
theorem shortCircuit_agree {op : BinaryOp} {absorbing : Bool} {left right : Expr}
    (hl : Expr.Receives p d a.ty left) (hr : Expr.Receives p d a.ty right)
    (hldata : left.isFunction = false) (hrdata : right.isFunction = false) :
    Agree (Linked p u d row) Same (shortCircuit self op absorbing left right)
      (shortCircuit self' op absorbing (Expr.substitute p a left)
        (Expr.substitute p a right)) := by
  refine agree_bind (hself left hl hldata) ?_
  rintro v _ ⟨rfl, hv⟩
  split
  · exact agree_pure ⟨rfl, hv⟩
  · refine agree_bind (hself right hr hrdata) ?_
    rintro w _ ⟨rfl, -⟩
    exact agree_ofExcept fun x x' hx hx' =>
      ⟨Except.ok.inj (hx.symm.trans hx'), connective_isData hx⟩

include hself in
theorem conversion_agree {c : Expr} (hc : Expr.Receives p d a.ty c) {v : Value}
    (hv : v.isData = true) :
    Agree (Linked p u d row) Same (applyLambda self c [v])
      (applyLambda self' (Expr.substitute p a c) [v]) := by
  cases hfunction : c.isFunction with
  | true =>
      obtain ⟨ps, body, ty, hparts, hparts', hbody⟩ := hc.lambdaParts? hfunction
      have happlied := applyLambda_agree hself hbody (sameAll_singleton hv)
      simp only [applyLambda, hparts, hparts', Expr.lambdaParts?] at happlied ⊢
      exact happlied
  | false =>
      simp only [applyLambda, Expr.lambdaParts?_of_not_function hfunction]
      exact agree_throw_left

include hself in
theorem binaryValue_agree {op : BinaryOp} {left right : Expr} {conversion : Option Expr} {ty : Ty}
    (he : Expr.Receives p d a.ty (.binary op left right conversion ty)) :
    Agree (Linked p u d row) Same (r.binaryValue self op left right conversion ty)
      (r.binaryValue self' op (Expr.substitute p a left) (Expr.substitute p a right)
        (conversion.map (Expr.substitute p a)) ty) := by
  have hl := he.child (c := left) (by simp [Expr.children])
  have hr := he.child (c := right) (by simp [Expr.children])
  obtain ⟨hldata, hrdata⟩ : left.isFunction = false ∧ right.isFunction = false := by
    simpa [Expr.appliesFunctions] using he.here
  have hstrict : ∀ op, Agree (Linked p u d row) Same
      (do let v ← self left
          let w ← self right
          EvalM.ofExcept (operatorValue (r.isIntegral ty) op v w))
      (do let v ← self' (Expr.substitute p a left)
          let w ← self' (Expr.substitute p a right)
          EvalM.ofExcept (operatorValue (r.isIntegral ty) op v w)) := by
    intro op
    refine agree_bind (hself left hl hldata) ?_
    rintro v _ ⟨rfl, hv⟩
    refine agree_bind (hself right hr hrdata) ?_
    rintro w _ ⟨rfl, -⟩
    exact agree_ofExcept fun x x' hx hx' =>
      ⟨Except.ok.inj (hx.symm.trans hx'), operatorValue_isData hv hx⟩
  cases op with
  | andAlso => exact shortCircuit_agree hself hl hr hldata hrdata
  | orElse => exact shortCircuit_agree hself hl hr hldata hrdata
  | coalesce =>
      refine agree_bind (hself left hl hldata) ?_
      rintro v _ ⟨rfl, hv⟩
      split
      · exact hself right hr hrdata
      · cases conversion with
        | none => exact agree_pure ⟨rfl, hv⟩
        | some c => exact conversion_agree hself (he.child (by simp [Expr.children])) hv
  | add | subtract | multiply | divide | modulo | and | or | equal | notEqual | lessThan
  | lessThanOrEqual | greaterThan | greaterThanOrEqual | arrayIndex => exact hstrict _

include hself hfun in
/-- A node that is not the parameter itself. -/
theorem evalNode_agree {e : Expr} (he : Expr.Receives p d a.ty e) (hdata : e.isFunction = false)
    (hparam : ∀ q, e = .param q → q.id ≠ p) :
    Agree (Linked p u d row) Same (r.evalNode self e) (r.evalNode self' (Expr.substitute p a e)) := by
  have happlies := he.here
  cases e with
  | param q =>
      have hp := hparam q rfl
      have hd := he.refers q (Expr.mem_nodes_self _)
      rw [Expr.substitute, if_neg hp]
      intro env env' v w e e' henv hv hw
      simp only [evalNode, returns_bind, returns_get] at hv hw
      obtain ⟨_, _, ⟨rfl, rfl⟩, hv⟩ := hv
      obtain ⟨_, _, ⟨rfl, rfl⟩, hw⟩ := hw
      cases hget : env.get? q.id with
      | none =>
          rw [hget] at hv
          exact absurd hv returns_throw
      | some x =>
          obtain ⟨hget', hx⟩ := henv.others q.id x hp hd hget
          rw [hget] at hv
          rw [hget'] at hw
          obtain ⟨rfl, rfl⟩ := returns_pure.mp hv
          obtain ⟨rfl, rfl⟩ := returns_pure.mp hw
          exact ⟨⟨rfl, hx⟩, rfl, rfl⟩
  | const v ty => exact agree_pure ⟨rfl, happlies⟩
  | default ty => exact agree_pure ⟨rfl, defaultOf_isData ty⟩
  | lambda ps body ty => simp [Expr.isFunction] at hdata
  | member target m =>
      have htarget := he.child (c := target) (by simp [Expr.children])
      refine agree_bind
        (hself target htarget (by simpa [Expr.appliesFunctions, Expr.children] using happlies)) ?_
      rintro v _ ⟨rfl, hv⟩
      rw [Expr.ty_substitute htarget.types]
      exact agree_ofExcept fun w w' hw hw' =>
        ⟨Except.ok.inj (hw.symm.trans hw'), valueMember_isData hv hw⟩
  | unary op operand ty => exact unaryValue_agree hself he hdata
  | binary op left right conversion ty =>
      cases conversion with
      | none => exact binaryValue_agree hself he
      | some c => exact binaryValue_agree hself he
  | cond test whenTrue whenFalse ty =>
      obtain ⟨htest, htrue, hfalse⟩ : test.isFunction = false ∧ whenTrue.isFunction = false ∧
          whenFalse.isFunction = false := by
        simpa [Expr.appliesFunctions, Expr.children] using happlies
      refine agree_bind (hself test (he.child (by simp [Expr.children])) htest) ?_
      rintro v _ ⟨rfl, -⟩
      cases v with
      | bool b =>
          cases b with
          | true => exact hself whenTrue (he.child (by simp [Expr.children])) htrue
          | false => exact hself whenFalse (he.child (by simp [Expr.children])) hfalse
      | _ => exact agree_throw_left
  | call target m args =>
      have hargs := callArguments_agree hself hfun he
      cases target with
      | none =>
          rw [Expr.substitute, Expr.substituteAll_eq]
          exact agree_bind hargs fun vs ws h => methodValue_agree hself h.1 h.2
      | some target =>
          rw [Expr.substitute, Expr.substituteAll_eq]
          have htarget : target.isFunction = false := by
            simp only [Expr.appliesFunctions, Option.all_some, Bool.and_eq_true] at happlies
            simpa using happlies.1
          refine agree_bind (hself target (he.child (by simp [Expr.children])) htarget) ?_
          rintro v _ ⟨rfl, -⟩
          exact agree_bind hargs fun vs ws h => methodValue_agree hself h.1 h.2
  | new ty inits =>
      rw [Expr.substitute, Expr.substituteInits_eq]
      have hinits : ∀ i ∈ inits, Expr.Receives p d a.ty i.2 ∧ i.2.isFunction = false := by
        intro i hi
        have hchild : i.2 ∈ (Expr.new ty inits).children := List.mem_map_of_mem hi
        refine ⟨he.child hchild, ?_⟩
        have hall := List.all_eq_true.mp happlies i.2 hchild
        simpa using hall
      refine agree_map (initValues_agree hself hinits ⟨rfl, by simp⟩) ?_
      rintro fs _ ⟨rfl, hfs⟩
      exact ⟨rfl, Value.isData_record.mpr hfs⟩
  | newArray ty items =>
      rw [Expr.substitute, Expr.substituteAll_eq]
      exact agree_map (dataArguments_agree hself (fun e hmem => he.child hmem) happlies)
        fun _ _ h => h.list
  | typeIs operand tested ty =>
      have hoperand := he.child (c := operand) (by simp [Expr.children])
      refine agree_bind
        (hself operand hoperand (by simpa [Expr.appliesFunctions, Expr.children] using happlies)) ?_
      rintro v _ ⟨rfl, -⟩
      rw [Expr.ty_substitute hoperand.types]
      exact agree_pure ⟨rfl, rfl⟩
  | invoke f args ty =>
      rw [Expr.substitute, Expr.substituteAll_eq]
      refine agree_bind (self_agree hself hfun (he.child (by simp [Expr.children]))) ?_
      intro v w hv
      have hargs : ∀ e ∈ args, Expr.Receives p d a.ty e := fun e hmem =>
        he.child (by simp [Expr.children, hmem])
      exact agree_bind (dataArguments_agree hself hargs happlies) fun vs ws h =>
        applyValue_agree hself hv h

end Nodes

/-! ## §6  Expressions -/

variable {r : Registry} {p d : Nat} {u row : Value} {a : Expr}

/-- By induction on how deep the first evaluation follows; the second may follow to any depth. -/
theorem eval_agree (hu : u.isData = true) (ha : r.Yields d row a u) :
    ∀ (n n' : Nat) (e : Expr), Expr.Receives p d a.ty e →
      (e.isFunction = false →
        Agree (Linked p u d row) Same (r.eval n e) (r.eval n' (Expr.substitute p a e))) ∧
      (e.isFunction = true →
        Agree (Linked p u d row) (SameFunction p d a) (r.eval n e)
          (r.eval n' (Expr.substitute p a e)))
  | 0, _, _, _ => ⟨fun _ => agree_throw_left, fun _ => agree_throw_left⟩
  | _ + 1, 0, _, _ => ⟨fun _ => agree_throw_right, fun _ => agree_throw_right⟩
  | n + 1, n' + 1, e, he => by
      have hself := fun e he => (eval_agree hu ha n n' e he).1
      have hfun := fun e he => (eval_agree hu ha n n' e he).2
      constructor
      · intro hdata
        by_cases hparam : ∃ q, e = .param q ∧ q.id = p
        · obtain ⟨q, rfl, rfl⟩ := hparam
          rw [Expr.substitute, if_pos rfl]
          intro env env' v w e e' henv hv hw
          simp only [eval, evalNode, returns_bind, returns_get] at hv
          obtain ⟨_, _, ⟨rfl, rfl⟩, hv⟩ := hv
          cases hget : env.get? q.id with
          | none =>
              rw [hget] at hv
              exact absurd hv returns_throw
          | some x =>
              rw [hget] at hv
              obtain ⟨rfl, rfl⟩ := returns_pure.mp hv
              obtain ⟨rfl, hrow⟩ := henv.value x hget
              obtain ⟨rfl, rfl⟩ := ha hrow hw
              exact ⟨⟨rfl, hu⟩, rfl, rfl⟩
        · exact evalNode_agree hself hfun he hdata fun q hq hid => hparam ⟨q, hq, hid⟩
      · intro hfunction
        unfold Expr.isFunction at hfunction
        split at hfunction
        · rename_i ps body ty
          exact agree_pure ⟨ps, body, ty, he, rfl, rfl⟩
        · rename_i inner ty
          refine agree_bind (hfun inner (he.child (by simp [Expr.children])) ?_)
            fun v w h => agree_pure h
          simpa [Expr.appliesFunctions] using he.here
        · cases hfunction

theorem yields_param {q : Parameter} : r.Yields q.id row (.param q) row := by
  intro n env v env' henv hv
  cases n with
  | zero => exact absurd hv returns_throw
  | succ n =>
      simp only [eval, evalNode, returns_bind, returns_get] at hv
      obtain ⟨_, _, ⟨rfl, rfl⟩, hv⟩ := hv
      rw [henv] at hv
      obtain ⟨rfl, rfl⟩ := returns_pure.mp hv
      exact ⟨rfl, rfl⟩

/-- What a member access comes to is read off the value of its target. -/
theorem returns_member {target : Expr} {m : Member} {n : Nat} {env env' : Env} {v : Value} :
    Returns (r.eval n (.member target m)) env v env' ↔
      ∃ k w, n = k + 1 ∧ Returns (r.eval k target) env w env' ∧
        valueMember (r.underlying? target.ty).isSome w m.name = .ok v := by
  cases n with
  | zero =>
      constructor
      · intro h
        exact absurd h returns_throw
      · rintro ⟨_, _, h, -⟩
        cases h
  | succ n =>
      simp only [eval, evalNode, returns_bind, EvalM.returns_ofExcept, Nat.add_right_cancel_iff]
      constructor
      · rintro ⟨w, e, hw, hv, rfl⟩
        exact ⟨n, w, rfl, hw, hv⟩
      · rintro ⟨_, w, rfl, hw, hv⟩
        exact ⟨w, env', hw, hv, rfl⟩

theorem Yields.member {e : Expr} {m : Member} {v w : Value} (h : r.Yields d row e v)
    (hw : valueMember (r.underlying? e.ty).isSome v m.name = .ok w) :
    r.Yields d row (.member e m) w := by
  intro n env x env' henv hx
  obtain ⟨k, y, -, hy, hread⟩ := returns_member.mp hx
  obtain ⟨rfl, rfl⟩ := h henv hy
  exact ⟨Except.ok.inj (hread.symm.trans hw), rfl⟩

section Apply

variable {q : Parameter} {body custom : Expr} {t ty : Ty} {w : Value}

/-- Applying a lambda of one parameter evaluates its body with the parameter bound. -/
theorem returns_of_apply (hparts : custom.lambdaParts? = some ([q], body, ty))
    (hw : r.apply custom [u] = .ok w) :
    ∃ env, Returns (r.eval evalDepth body) ((Scope.empty : Env).push [(q.id, u)]) w env := by
  simp only [apply, applyLambda, hparts] at hw
  have hframe : Returns (EvalM.inFrame [(q.id, u)] (r.eval evalDepth body)) .empty w
      ((EvalM.inFrame [(q.id, u)] (r.eval evalDepth body)).run.run .empty).2 :=
    Prod.ext hw rfl
  obtain ⟨env, henv, -⟩ := EvalM.returns_inFrame.mp hframe
  exact ⟨env, henv⟩

@[simp] theorem get?_push_self : ((Scope.empty : Env).push [(q.id, u)]).get? q.id = some u := by
  simp [Scope.get?, Scope.push]

theorem get?_push_empty {k : Nat} {v : Value}
    (h : ((Scope.empty : Env).push [(q.id, u)]).get? k = some v) : k = q.id ∧ v = u := by
  by_cases hk : q.id = k
  · simp [Scope.get?, Scope.push, Scope.empty, hk] at h
    exact ⟨hk.symm, h.symm⟩
  · simp [Scope.get?, Scope.push, Scope.empty, hk] at h

theorem linked_push_empty {env : Env} (hrow : env.get? d = some row) :
    Linked q.id u d row ((Scope.empty : Env).push [(q.id, u)]) env where
  value _ hv := ⟨(get?_push_empty hv).2, hrow⟩
  others _ _ hk _ hv := absurd (get?_push_empty hv).1 hk

/-- A custom lambda makes data of data.  The evaluation is compared with itself, with nothing put
in anywhere. -/
theorem isData_of_apply (hu : u.isData = true)
    (hparts : custom.lambdaParts? = some ([q], body, ty)) (hbody : Expr.Receives q.id d t body)
    (hq : q.id ≠ d) (hdata : body.isFunction = false) (hw : r.apply custom [u] = .ok w) :
    w.isData = true := by
  obtain ⟨env, hrun⟩ := returns_of_apply hparts hw
  let root : Parameter := ⟨d, "", t⟩
  have hsame : Expr.substitute d (.param root) body = body :=
    Expr.substitute_eq_self body fun p hp => hbody.refers p hp
  have hself : Expr.Receives d d t body :=
    { applies := hbody.applies
      binds := fun ps b ty hn p hp => ⟨(hbody.binds ps b ty hn p hp).2, (hbody.binds ps b ty hn p hp).2⟩
      refers := hbody.refers
      types := fun p hp hid => absurd hid (hbody.refers p hp) }
  have hlinked : Linked d u d u ((Scope.empty : Env).push [(q.id, u)])
      ((Scope.empty : Env).push [(q.id, u)]) :=
    { value := fun _ hv => absurd (get?_push_empty hv).1 (Ne.symm hq)
      others := fun k v _ _ hv => ⟨hv, by rw [(get?_push_empty hv).2]; exact hu⟩ }
  have hagree := (eval_agree hu (yields_param (q := root) (r := r)) evalDepth evalDepth body
    hself).1 hdata
  rw [hsame] at hagree
  exact (hagree hlinked hrun hrun).1.2

/-- Applying a custom lambda to what an expression yields gives what the lambda yields with the
expression put in. -/
theorem Yields.substitute {a : Expr} (ha : r.Yields d row a u) (hu : u.isData = true)
    (hparts : custom.lambdaParts? = some ([q], body, ty))
    (hbody : Expr.Receives q.id d a.ty body) (hdata : body.isFunction = false)
    (hw : r.apply custom [u] = .ok w) : r.Yields d row (Expr.substitute q.id a body) w := by
  obtain ⟨env₁, hrun⟩ := returns_of_apply hparts hw
  intro n env v env' hrow hv
  obtain ⟨⟨rfl, -⟩, -, rfl⟩ :=
    (eval_agree hu ha evalDepth n body hbody).1 hdata (linked_push_empty hrow) hrun hv
  exact ⟨rfl, rfl⟩

end Apply

end Registry

end Recast
