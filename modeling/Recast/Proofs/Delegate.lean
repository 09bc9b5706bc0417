import Mathlib.Data.List.Forall2
import Recast.Proofs.Replacing
import Recast.Proofs.TypeSoundness

/-! # The delegate of a recast lambda

Whatever is registered before the body of a lambda is reached, its parameters are replaced
first: each by one of the same name and of the data type that the table holds for its type
then (`Recaster.recastWithin_lambda`).  A pair of delegates is only complied with exactly.
So a lambda comes out with as many parameters as it had, in the same order and under the
same names, and where a delegate was asked for with exactly that one
(`LambdaRecaster.recast_delegate`).
-/

namespace Recast

/-! ## §1  Parameters of a lambda -/

/-- A parameter of the same name, of the type that the table has for that of the first. -/
structure Parameter.ReplacedBy (r : Registry) (t : TypeTable) (p q : Parameter) : Prop where
  name : q.name = p.name
  ty : q.ty = t.dataType r p.ty

namespace Parameter

variable {r : Registry} {t : TypeTable} {ps qs : List Parameter}

theorem names_replaced (h : List.Forall₂ (ReplacedBy r t) ps qs) :
    qs.map (·.name) = ps.map (·.name) := by
  induction h with
  | nil => rfl
  | cons hp _ ih => rw [List.map_cons, List.map_cons, hp.name, ih]

theorem types_replaced (h : List.Forall₂ (ReplacedBy r t) ps qs) :
    qs.map (·.ty) = ps.map fun p => t.dataType r p.ty := by
  induction h with
  | nil => rfl
  | cons hp _ ih => rw [List.map_cons, List.map_cons, hp.ty, ih]

end Parameter

/-- Numbers tell the parameters apart. -/
def Parameter.Distinct (ps : List Parameter) : Prop := ∀ p ∈ ps, ∀ q ∈ ps, p.id = q.id → p = q

/-- What stands for one of the parameters so far has its name and its data type. -/
def Replacements.Follows (r : Registry) (t : TypeTable) (ps : List Parameter)
    (b : Replacements) : Prop :=
  ∀ p ∈ ps, ∀ q, b.get? p = some q → p.ReplacedBy r t q

namespace Recaster

variable {w : Recaster}

/-- One more parameter is replaced, and the table stays. -/
theorem replace_follows {ps : List Parameter} (hdistinct : Parameter.Distinct ps) {p p' : Parameter}
    (hp : p ∈ ps) {s s' : RecastState} (h : Returns (w.replace p) s p' s')
    (hs : s.replacements.Follows w.types s.table ps) :
    p.ReplacedBy w.types s.table p' ∧ s'.table = s.table ∧
      s'.replacements.Follows w.types s.table ps := by
  obtain ⟨b', fresh', hrun, rfl⟩ := returns_replace.mp h
  rcases Replacements.replace_cases hrun with ⟨hold, rfl, -⟩ | ⟨-, rfl, hnew⟩
  · exact ⟨hs p hp p' hold, rfl, hs⟩
  · have hp' : p.ReplacedBy w.types s.table p' := by
      rcases hnew with ⟨hdata, rfl, -⟩ | ⟨-, rfl, -⟩
      · exact ⟨rfl, hdata.symm⟩
      · exact ⟨rfl, rfl⟩
    refine ⟨hp', rfl, fun q hq x hx => ?_⟩
    rw [Replacements.get?_cons] at hx
    split at hx
    · rename_i hid
      obtain rfl := hdistinct q hq p hp hid
      obtain rfl := Option.some.inj hx
      exact hp'
    · exact hs q hq x hx

theorem replaceAll_follows {known : List Parameter} (hdistinct : Parameter.Distinct known) :
    ∀ {ps ps' : List Parameter}, ps ⊆ known → ∀ {s s' : RecastState},
      Returns (w.replaceAll ps) s ps' s' → s.replacements.Follows w.types s.table known →
        List.Forall₂ (Parameter.ReplacedBy w.types s.table) ps ps' ∧ s'.table = s.table
  | [], ps', _, s, s', h, _ => by
      obtain ⟨rfl, rfl⟩ := returns_pure.mp h
      exact ⟨.nil, rfl⟩
  | p :: ps, ps', hknown, s, s', h, hs => by
      obtain ⟨hp, hps⟩ := List.cons_subset.mp hknown
      simp only [replaceAll, returns_bind, returns_pure] at h
      obtain ⟨p', s₁, hfirst, rest, s₂, hrest, rfl, rfl⟩ := h
      obtain ⟨hp', htable, hs₁⟩ := replace_follows hdistinct hp hfirst hs
      rw [← htable] at hs₁
      obtain ⟨hps', htable'⟩ := replaceAll_follows hdistinct hps hrest hs₁
      rw [htable] at hps' htable'
      exact ⟨.cons hp' hps', htable'⟩

/-- A lambda is recast to a lambda over the replacements of its parameters, whose types are
those that the table has at the start. -/
theorem recastWithin_lambda {n : Nat} {params : List Parameter} {body : Expr} {t : Ty}
    {s s' : RecastState} {o : Outcome} (hdistinct : Parameter.Distinct params)
    (hstart : s.replacements = {})
    (h : Returns (w.recastWithin n (.lambda params body t)) s o s') :
    ∃ params', List.Forall₂ (Parameter.ReplacedBy w.types s.table) params params' ∧
      (o = .kept ∧ params' = params ∨ ∃ body', o = .made (Registry.mkLambda params' body')) := by
  cases n with
  | zero => exact absurd h returns_throw
  | succ n =>
      have hs : s.replacements.Follows w.types s.table params := by
        intro p _ q hq
        rw [hstart] at hq
        cases hq
      simp only [recastWithin, node, lambda, returns_bind] at h
      obtain ⟨params', s₁, hparams, o', s₂, -, h⟩ := h
      refine ⟨params', (replaceAll_follows hdistinct (List.Subset.refl _) hparams hs).1, ?_⟩
      split at h
      · rename_i hkept
        obtain ⟨rfl, -⟩ := returns_pure.mp h
        exact .inl ⟨rfl, eq_of_beq (Bool.and_eq_true_iff.mp hkept).2⟩
      · obtain ⟨rfl, -⟩ := returns_pure.mp h
        exact .inr ⟨_, rfl⟩

end Recaster

/-! ## §2  The delegate that was asked for -/

theorem Registry.mkLambdaTyped_delegate {r : Registry} {delegate : Ty} {params : List Parameter}
    {body e : Expr} (h : r.mkLambdaTyped delegate params body = .ok e) :
    e = .lambda params body (r.stripExpression delegate) ∧
      ∃ ret, r.signature? (r.stripExpression delegate) = some (params.map (·.ty), ret) ∧
        r.isAssignable body.ty ret = true := by
  simp only [mkLambdaTyped] at h
  split at h
  · cases h
  · rename_i ps ret hsignature
    split at h
    · rename_i hfits
      cases h
      obtain ⟨rfl, hret⟩ := hfits
      exact ⟨rfl, ret, hsignature, hret⟩
    · cases h

namespace LambdaRecaster

variable {m : LambdaRecaster}

/-- What is fitted to a pair has its parameters, with the types of the delegate asked for. -/
theorem fitTo_delegate {params : List Parameter} {body e : Expr} {t : Ty} {p : TyPair}
    (h : m.fitTo (.lambda params body t) p = .ok e) :
    ∃ body' ret, e = .lambda params body' (m.types.stripExpression (m.types.stripExpression p.destination)) ∧
      m.types.signature? (m.types.stripExpression (m.types.stripExpression p.destination)) =
        some (params.map (·.ty), ret) := by
  simp only [fitTo, Checked.bind_eq_ok] at h
  obtain ⟨_, -, body', -, h⟩ := h
  obtain ⟨rfl, ret, hsignature, -⟩ := Registry.mkLambdaTyped_delegate h
  exact ⟨body', ret, rfl, hsignature⟩

/-- The result is the fitted lambda, in a quote if the given one was. -/
theorem on_finish {e : Expr} {pair : Option TyPair} {o o' : Outcome}
    (h : m.finish e pair o = .ok o') :
    ∃ fitted, m.fitOutcome e pair o = .ok fitted ∧
      o'.on e = if isQuoted e then
          .unary .quote (fitted.on (unquoted e))
            (.expression (m.types.stripExpression (fitted.on (unquoted e)).ty))
        else fitted.on (unquoted e) := by
  simp only [finish, Checked.bind_eq_ok] at h
  obtain ⟨fitted, hfitted, h⟩ := h
  refine ⟨fitted, hfitted, ?_⟩
  split at h
  · rename_i hquoted
    obtain ⟨quote, hquote, rfl⟩ := Checked.map_eq_ok.mp h
    rw [if_pos hquoted]
    exact Registry.mkQuote_eq_ok hquote
  · rename_i hquoted
    obtain rfl := Checked.pure_eq_ok.mp h
    have hsame : unquoted e = e := by
      unfold unquoted
      split
      · exact absurd rfl hquoted
      · rfl
    rw [if_neg hquoted, hsame]

/-- The parameters of a fitted lambda are those it was fitted with. -/
theorem fitOutcome_lambda {e : Expr} {pair : Option TyPair} {o fitted : Outcome}
    {params : List Parameter} {body : Expr} {t : Ty}
    (h : m.fitOutcome e pair o = .ok fitted) (ho : o.on (unquoted e) = .lambda params body t) :
    ∃ body' t', fitted.on (unquoted e) = .lambda params body' t' ∧
      ∀ p ps ret, pair = some p →
        (p.destination = .func ps ret ∨ p.destination = .expression (.func ps ret)) →
          params.map (·.ty) = ps ∧ t' = .func ps ret := by
  cases pair with
  | none =>
      cases h
      exact ⟨body, t, ho, fun p ps ret hp => by cases hp⟩
  | some p =>
      obtain ⟨lambda, hlambda, rfl⟩ := Checked.map_eq_ok.mp h
      rw [ho] at hlambda
      obtain ⟨body', ret', rfl, hsignature⟩ := fitTo_delegate hlambda
      refine ⟨body', _, rfl, ?_⟩
      rintro p' ps ret hp hdestination
      obtain rfl := Option.some.inj hp
      have hstripped : m.types.stripExpression (m.types.stripExpression p.destination) =
          .func ps ret := by
        rcases hdestination with hp | hp
        · rw [hp]
          rfl
        · by_cases hredefined : m.types.isRedefined (.expression (.func ps ret)) = true
          · -- A record is no delegate, so the pair was refused.
            simp [hp, Registry.stripExpression, Registry.signature?, hredefined] at hsignature
          · simp [hp, Registry.stripExpression, hredefined]
      rw [hstripped] at hsignature ⊢
      simp only [Registry.signature?] at hsignature
      split at hsignature
      · cases hsignature
      · obtain ⟨rfl, -⟩ := Prod.mk.inj (Option.some.inj hsignature)
        exact ⟨rfl, rfl⟩

/-- A lambda comes out with as many parameters as it had, in the same order and under the same
names.  If a delegate was asked for, the result has exactly that type, or an `Expression<>` of
it where the given lambda was quoted, and its parameters have the types of that delegate. -/
theorem recast_delegate {e : Expr} {pair : Option TyPair} {asInclude : Bool} {o : Outcome}
    {s s' : RecastState} {params : List Parameter} {body : Expr} {t : Ty}
    (hlambda : unquoted e = .lambda params body t) (hdistinct : Parameter.Distinct params)
    (h : Returns (m.recast e pair asInclude) s o s') :
    ∃ params' body' t', unquoted (o.on e) = .lambda params' body' t' ∧
      isQuoted (o.on e) = isQuoted e ∧ params'.map (·.name) = params.map (·.name) ∧
      ∀ p ps ret, pair = some p →
        (p.destination = .func ps ret ∨ p.destination = .expression (.func ps ret)) →
          params'.map (·.ty) = ps ∧
            (o.on e).ty = if isQuoted e then .expression (.func ps ret) else .func ps ret := by
  obtain ⟨_, _, _, s₁, o₁, -, -, hrun, hfinish⟩ := returns_recast.mp h
  rw [hlambda] at hrun
  obtain ⟨params', hparams, hoRun⟩ := Recaster.recastWithin_lambda hdistinct rfl hrun
  have ho₁ : ∃ body₁ t₁, o₁.on (unquoted e) = .lambda params' body₁ t₁ := by
    rcases hoRun with ⟨rfl, rfl⟩ | ⟨body₁, rfl⟩
    · exact ⟨body, t, hlambda⟩
    · exact ⟨body₁, _, rfl⟩
  obtain ⟨body₁, t₁, ho₁⟩ := ho₁
  obtain ⟨fitted, hfitted, hon⟩ := on_finish hfinish
  obtain ⟨body', t', hfit, hpair⟩ := fitOutcome_lambda hfitted ho₁
  have hnames := Parameter.names_replaced hparams
  rw [hfit] at hon
  refine ⟨params', body', t', ?_⟩
  cases hquoted : isQuoted e with
  | true =>
      rw [hquoted, if_pos rfl] at hon
      rw [hon]
      refine ⟨rfl, rfl, hnames, fun p ps ret hp hdestination => ?_⟩
      obtain ⟨htys, rfl⟩ := hpair p ps ret hp hdestination
      exact ⟨htys, rfl⟩
  | false =>
      rw [hquoted, if_neg Bool.false_ne_true] at hon
      rw [hon]
      refine ⟨rfl, rfl, hnames, fun p ps ret hp hdestination => ?_⟩
      obtain ⟨htys, rfl⟩ := hpair p ps ret hp hdestination
      exact ⟨htys, rfl⟩

/-! ### A quoted lambda over orders -/

namespace Orders

/-- `m => m.Label == "x"` in a quote. -/
def quotedIsX : Expr := .unary .quote isX (.expression (.func [model] .boolean))

/-- Tests of orders that may be null, in place of tests of their models. -/
def tests : TyPair := ⟨.func [model] .boolean, .expression (.func [order] (.nullable .boolean))⟩

end Orders

open Orders in
theorem recast_delegate_orders :
    ∃ o s' params' body' t', Returns (recaster.recast quotedIsX (some tests) false) { fresh := 3 } o s' ∧
      unquoted (o.on quotedIsX) = .lambda params' body' t' ∧ params'.map (·.name) = ["m"] ∧
      params'.map (·.ty) = [order] ∧
      (o.on quotedIsX).ty = .expression (.func [order] (.nullable .boolean)) := by
  have h : Returns (recaster.recast quotedIsX (some tests) false) { fresh := 3 } _ _ :=
    returns_of_run rfl
  have hdistinct : Parameter.Distinct [⟨1, "m", model⟩] := by
    unfold Parameter.Distinct
    decide
  obtain ⟨params', body', t', hlambda, -, hnames, hpair⟩ := recast_delegate rfl hdistinct h
  obtain ⟨htys, hty⟩ := hpair tests [order] (.nullable .boolean) rfl (.inr rfl)
  exact ⟨_, _, params', body', t', h, hlambda, hnames, htys, hty⟩

end LambdaRecaster

end Recast
