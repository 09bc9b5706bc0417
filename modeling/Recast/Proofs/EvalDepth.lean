import Recast.Proofs.EvalRelation

/-! # How deep evaluation follows

An evaluation that does not report `tooDeep` ends alike, well or not, however much deeper it
might follow, and leaves its environment as it was (`Registry.eval_deepens`).  What a lambda
does to its arguments in the middle of an evaluation is therefore what it does to them on its
own (`Registry.applyLambda_alone`).
-/

namespace Recast

/-! ## §1  Computations that may go too deep -/

namespace EvalM

variable {α β : Type}

/-- The first computation leaves the environment as it was, and the second ends as it does unless
it goes too deep. -/
structure Deepens (x y : EvalM α) : Prop where
  restores : ∀ env : Env, (x.run env).2 = env
  ends : ∀ env : Env, (x.run env).1 = .error .tooDeep ∨ y.run env = x.run env

namespace Deepens

theorem pure (a : α) : Deepens (Pure.pure a) (Pure.pure a) := ⟨fun _ => rfl, fun _ => .inr rfl⟩

theorem throw (err : EvalError) :
    Deepens (MonadExcept.throw err : EvalM α) (MonadExcept.throw err) :=
  ⟨fun _ => rfl, fun _ => .inr rfl⟩

theorem tooDeep (y : EvalM α) : Deepens (MonadExcept.throw EvalError.tooDeep) y :=
  ⟨fun _ => rfl, fun _ => .inl rfl⟩

/-- What follows is asked of the results only that the first computation can end with. -/
theorem bind_of_returns {x y : EvalM α} {f g : α → EvalM β} (h : Deepens x y)
    (hf : ∀ a env env', Returns x env a env' → Deepens (f a) (g a)) :
    Deepens (x >>= f) (y >>= g) where
  restores env := by
    have hx := h.restores env
    rw [run_bind]
    rcases hrun : x.run env with ⟨err | a, env'⟩
    · rw [hrun] at hx
      exact hx
    · rw [hrun] at hx
      obtain rfl : env' = env := hx
      exact (hf a env' env' hrun).restores env'
  ends env := by
    have hx := h.restores env
    rw [run_bind, run_bind]
    rcases h.ends env with hdeep | hsame
    · rcases hrun : x.run env with ⟨err | a, env'⟩
      · rw [hrun] at hdeep
        obtain rfl : err = .tooDeep := Except.error.inj hdeep
        exact .inl rfl
      · rw [hrun] at hdeep
        cases hdeep
    · rw [hsame]
      rcases hrun : x.run env with ⟨err | a, env'⟩
      · exact .inr rfl
      · exact (hf a env env' hrun).ends env'

/-- A frame that is opened is closed again. -/
theorem inFrame (frame : List (Nat × Value)) {x y : EvalM α} (h : Deepens x y) :
    Deepens (EvalM.inFrame frame x) (EvalM.inFrame frame y) where
  restores env := by
    show ((x.run (env.push frame)).2).pop = env
    rw [h.restores, Scope.pop_push]
  ends env := by
    rcases h.ends (env.push frame) with hdeep | hsame
    · exact .inl hdeep
    · refine .inr ?_
      show ((y.run (env.push frame)).1, (y.run (env.push frame)).2.pop) = _
      rw [hsame]
      rfl

theorem lookup (p : Parameter) : Deepens (EvalM.lookup p) (EvalM.lookup p) where
  restores env := by rw [run_lookup]
  ends _ := .inr rfl

end Deepens

end EvalM

open EvalM

/-! ## §2  Evaluation -/

def deepens : EvalRelation where
  rel := Deepens
  pure := .pure
  throw := .throw
  bind_of_returns := .bind_of_returns
  inFrame frame h := h.inFrame frame
  lookup := .lookup

theorem applyLambda_deepens {self self' : Expr → EvalM Value}
    (hself : ∀ e, Deepens (self e) (self' e)) (lambda : Expr) (args : List Value) :
    Deepens (applyLambda self lambda args) (applyLambda self' lambda args) :=
  deepens.applyLambda (show ∀ e, deepens.rel (self e) (self' e) from hself) lambda args

namespace Registry

variable (r : Registry)

/-- By induction on how deep the first evaluation follows. -/
theorem eval_deepens : ∀ {n n' : Nat}, n ≤ n' → ∀ e, Deepens (r.eval n e) (r.eval n' e)
  | 0, _, _, _ => .tooDeep _
  | n + 1, n' + 1, h, e =>
    have hbelow : ∀ e, deepens.rel (r.eval n e) (r.eval n' e) :=
      eval_deepens (Nat.le_of_succ_le_succ h)
    deepens.evalNode hbelow e

/-- A lambda that is applied somewhere within an evaluation of a closed expression does to its
arguments what it does to them on its own, unless it goes too deep there. -/
theorem applyLambda_alone {n : Nat} (hn : n ≤ evalDepth) (lambda : Expr) (args : List Value) :
    ((applyLambda (r.eval n) lambda args).run .empty).1 = .error .tooDeep ∨
      (applyLambda (r.eval n) lambda args).run .empty = (r.apply lambda args, .empty) := by
  have happly := applyLambda_deepens (r.eval_deepens hn) lambda args
  refine (happly.ends .empty).imp_right fun hsame => ?_
  have hrestores := happly.restores .empty
  rw [← hsame] at hrestores ⊢
  exact Prod.ext rfl hrestores

end Registry

end Recast
