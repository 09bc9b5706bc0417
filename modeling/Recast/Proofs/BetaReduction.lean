import Recast.Proofs.PathTyping
import Recast.Proofs.Splicing

/-! # Beta reduction

Splicing a custom lambda around an expression means applying the lambda to the value of
the expression.

- `Registry.EvaluatesTo`, `Registry.AppliesTo` — how evaluation ends, however deep it has to
  follow.
- `Registry.Hygienic`, `Registry.Splices` — what is asked of the lambda, and of the expression
  and its value.
- `Registry.SplicingApplies` — the spliced lambda ends as the lambda applied to the value.
- `Registry.SplicesFreely` — what does not suffice: free parameters are not all that is looked
  up, and static types are read where the value is not a record.
-/

namespace Recast

namespace Registry

variable (r : Registry)

/-! ## §1  How evaluation ends -/

/-- Evaluation ends so, if it follows deep enough. -/
def EvaluatesTo (e : Expr) (env : Env) (o : Except EvalError Value) : Prop :=
  o ≠ .error .tooDeep ∧ ∃ n, ((r.eval n e).run env).1 = o

/-- The lambda applied to the arguments ends so, if evaluation follows deep enough. -/
def AppliesTo (f : Expr) (args : List Value) (o : Except EvalError Value) : Prop :=
  o ≠ .error .tooDeep ∧ ∃ n, ((applyLambda (r.eval n) f args).run .empty).1 = o

/-- Applying the lambda to the arguments comes to a comparison of two lambdas. -/
def ComparesLambdas (f : Expr) (args : List Value) : Prop :=
  ∃ n, ((applyLambda (r.evalComparing n) f args).run .empty).1 = .error lambdasCompared

variable {r} {e : Expr} {env : Env} {v : Value} {o : Except EvalError Value}

theorem returns_of_deepens {x y : EvalM Value} (h : x.Deepens y) (hx : (x.run env).1 = .ok v) :
    Returns y env v env := by
  rcases h.ends env with hdeep | hsame
  · rw [hx] at hdeep
    cases hdeep
  · exact hsame.trans (Prod.ext hx (h.restores env))

/-- What has a value where the parameters in `ids` are unbound has it whatever they are bound to. -/
theorem EvaluatesTo.steady {ids : List Nat} (h : r.EvaluatesTo e (env.without ids) (.ok v)) :
    ∃ n, ∀ m, n ≤ m → ∀ env' : Env, (∀ id ∉ ids, env'.get? id = env.get? id) →
      Returns (r.eval m e) env' v env' := by
  obtain ⟨-, n, hn⟩ := h
  refine ⟨n, fun m hm env' henv' => ?_⟩
  exact eval_binds_more (Env.without_below henv') (returns_of_deepens (r.eval_deepens hm e) hn)

/-- What ends well with data is no lambda. -/
theorem lambdaParts?_of_returns {n : Nat} (h : Returns (r.eval n e) env v env)
    (hv : v.isData = true) : e.lambdaParts? = none := by
  induction e using Expr.lambdaParts?.induct generalizing n with
  | case1 ps body ty =>
      cases n with
      | zero => cases h
      | succ n =>
          cases h
          cases hv
  | case2 e ty ih =>
      cases n with
      | zero => cases h
      | succ n =>
          obtain ⟨u, s, hu, hv'⟩ := returns_bind.mp h
          obtain ⟨rfl, rfl⟩ := returns_pure.mp hv'
          exact ih hu
  | case3 e hlambda hquote =>
      cases e using Expr.shapes with
      | lambda ps body t => exact absurd rfl (hlambda ps body t)
      | unary op e t =>
          cases op with
          | quote => exact absurd rfl (hquote e t)
          | _ => rfl
      | _ => rfl

/-- However deep it follows, a computation that ends does so in one way. -/
theorem ends_unique {f : Nat → EvalM Value} (hf : ∀ {n n'}, n ≤ n' → (f n).Deepens (f n'))
    {n n' : Nat} {o o' : Except EvalError Value} (h : ((f n).run env).1 = o)
    (h' : ((f n').run env).1 = o') (ho : o ≠ .error .tooDeep) (ho' : o' ≠ .error .tooDeep) :
    o = o' := by
  have hle : ∀ {n n' : Nat} {o o' : Except EvalError Value}, n ≤ n' → ((f n).run env).1 = o →
      ((f n').run env).1 = o' → o ≠ .error .tooDeep → o = o' := by
    intro n n' o o' hn h h' ho
    rcases (hf hn).ends env with hdeep | hsame
    · exact absurd (h.symm.trans hdeep) ho
    · rw [← h, ← h', hsame]
  rcases Nat.le_total n n' with hn | hn
  · exact hle hn h h' ho
  · exact (hle hn h' h ho').symm

theorem EvaluatesTo.unique {o' : Except EvalError Value} (h : r.EvaluatesTo e env o)
    (h' : r.EvaluatesTo e env o') : o = o' := by
  obtain ⟨ho, n, hn⟩ := h
  obtain ⟨ho', n', hn'⟩ := h'
  exact ends_unique (fun hle => r.eval_deepens hle e) hn hn' ho ho'

theorem AppliesTo.unique {f : Expr} {args : List Value} {o' : Except EvalError Value}
    (h : r.AppliesTo f args o) (h' : r.AppliesTo f args o') : o = o' := by
  obtain ⟨ho, n, hn⟩ := h
  obtain ⟨ho', n', hn'⟩ := h'
  exact ends_unique (fun hle => applyLambda_deepens (r.eval_deepens hle) f args) hn hn' ho ho'

/-- Applied with an eye on comparisons of lambdas, the lambda ends with data. -/
theorem not_comparesLambdas {f : Expr} {args : List Value} {n : Nat}
    (h : ((applyLambda (r.evalComparing n) f args).run .empty).1 = o)
    (ho : o ≠ .error .tooDeep) (hapart : o ≠ .error lambdasCompared) :
    ¬ r.ComparesLambdas f args := by
  rintro ⟨n', hn'⟩
  have hdeepens : ∀ {n n'}, n ≤ n' → (applyLambda (r.evalComparing n) f args).Deepens
      (applyLambda (r.evalComparing n') f args) :=
    fun hle => applyLambda_deepens (evalComparing_deepens hle) f args
  exact hapart (ends_unique hdeepens h hn' ho (by simp [lambdasCompared]))

/-! ## §2  Splicing is applying -/

/-- A lambda `s => body` that binds `s` once, refers to nothing but `s` and what lambdas in the body
bind, holds no lambda in a constant and, applied to the data `v`, compares no two lambdas. -/
structure Hygienic (r : Registry) (custom : Expr) (s : Parameter) (body : Expr) (v : Value) :
    Prop where
  parts : ∃ ty, custom.lambdaParts? = some ([s], body, ty)
  refers : body.RefersAs s.id s.ty
  binds : s.id ∉ body.bound
  closed : ∀ p, Expr.Free p body → p.id = s.id
  constants : ∀ c t, .const c t ∈ body.nodes → c.isData = true
  data : v.isData = true
  apart : ¬ r.ComparesLambdas custom [v]

/-- What is asked of the lambda and of an argument that has the value `v`. -/
structure Splices (r : Registry) (custom argument : Expr) (env : Env) (v : Value) (s : Parameter)
    (body : Expr) : Prop extends r.Hygienic custom s body v where
  /-- The argument has the type of the parameter, or it is a record that derives from it and so is
  its value, if it is not null. -/
  typed : argument.ty = s.ty ∨ r.extends? argument.ty s.ty = true ∧ r.underlying? s.ty = none ∧
    (v = .null ∨ ∃ t fields, v = .record t fields)
  /-- Its value is found without the parameters that lambdas in the body bind. -/
  value : r.EvaluatesTo argument (env.without body.bound) (.ok v)
  /-- Neither looks for a parameter of a lambda that is not applied any more. -/
  bound : (∀ name, ¬ r.AppliesTo custom [v] (.error (.unboundParameter name))) ∨
    ∀ id ∈ body.bound, env.get? id = none

/-- The spliced lambda ends as the lambda applied to `v`, well with data or with an error. -/
def SplicingApplies (r : Registry) (custom argument : Expr) (env : Env) (v : Value) : Prop :=
  ∃ spliced, r.betaReduce custom argument = .ok spliced ∧
    ∀ o, (∀ u, o = .ok u → u.isData = true) →
      (r.EvaluatesTo spliced env o ↔ r.AppliesTo custom [v] o)

variable {custom argument body : Expr} {s : Parameter}

def Splices.splice (_ : r.Splices custom argument env v s body) : Splice where
  param := s
  argument := argument
  value := v
  bound := body.bound
  env := env

theorem Splices.fits (h : r.Splices custom argument env v s body) : h.splice.Fits r where
  data := h.data
  typed := h.typed
  plain := by
    obtain ⟨n, hn⟩ := h.value.steady
    exact lambdaParts?_of_returns (hn n (Nat.le_refl n) env fun _ _ => rfl) h.data

theorem Hygienic.hosts (h : r.Hygienic custom s body v) :
    body.Hosts s body.bound where
  refers := h.refers
  within p hp hs := (body.free_or_bound hp).resolve_left fun hfree => hs (h.closed p hfree)
  data := h.constants
  binds n hn id hid := by
    have hbound : id ∈ body.bound := List.mem_flatMap.mpr ⟨n, hn, hid⟩
    exact ⟨fun hs => h.binds (hs ▸ hbound), hbound⟩

/-- An error that the lambda over the value would not share with the spliced one. -/
def Splices.Unshared (_ : r.Splices custom argument env v s body) (e : EvalError) : Prop :=
  e = lambdasCompared ∨ (∃ name, e = .unboundParameter name) ∧
    ∀ name, ¬ r.AppliesTo custom [v] (.error (.unboundParameter name))

theorem Splices.pair (h : r.Splices custom argument env v s body) {L : EvalError → Prop}
    (hL : ∀ err, h.Unshared err → L err) :
    h.splice.Pair L (Scope.empty.push [(s.id, v)]) env where
  value := by simp [Scope.get?, Scope.push, Scope.empty, splice]
  others k u hk hu := by
    -- nothing else is bound where the lambda is applied
    simp only [Scope.get?, Scope.push, Scope.empty, splice] at hu hk
    rw [List.append_nil, List.reverse_singleton, List.find?_singleton] at hu
    simp [hk.symm] at hu
  unbound k hk _ := by
    rcases h.bound with hreports | hnone
    · exact .inl fun name => hL _ (.inr ⟨⟨name, rfl⟩, hreports⟩)
    · exact .inr (hnone k hk)
  around _ _ := rfl

theorem Splices.betaReduce (h : r.Splices custom argument env v s body) :
    r.betaReduce custom argument = .ok (h.splice.into body) := by
  obtain ⟨ty, hparts⟩ := h.parts
  have hassignable : r.isAssignable argument.ty s.ty = true := by
    rcases h.typed with hsame | ⟨hextends, -⟩
    · rw [hsame, isAssignable_refl]
    · exact isAssignable_of_extends? hextends
  simp only [Registry.betaReduce, hparts, fitArgument, if_pos hassignable]
  rfl

/-- How the lambda ends on the value, and how its body does where the value is bound. -/
theorem applyLambda_run {self : Expr → EvalM Value} {ty : Ty}
    (hparts : custom.lambdaParts? = some ([s], body, ty)) :
    ((applyLambda self custom [v]).run .empty).1 =
      ((self body).run (Scope.empty.push [(s.id, v)])).1 := by
  unfold applyLambda
  rw [hparts]
  rfl

/-- No two lambdas are compared, so that evaluation need not watch out for it. -/
theorem Hygienic.watched (h : r.Hygienic custom s body v) (n : Nat) :
    ((r.evalComparing n body).run (Scope.empty.push [(s.id, v)])).1 =
      ((applyLambda (r.eval n) custom [v]).run .empty).1 := by
  obtain ⟨ty, hparts⟩ := h.parts
  rw [applyLambda_run hparts]
  have hstops := evalComparing_stopping (r := r) n body _ (Scope.empty.push [(s.id, v)]) rfl
  unfold EvalM.Tracks at hstops
  generalize hrun : (r.evalComparing n body).run (Scope.empty.push [(s.id, v)]) = run at hstops ⊢
  generalize (r.eval n body).run (Scope.empty.push [(s.id, v)]) = run' at hstops ⊢
  cases hstops with
  | ok hsame => exact congrArg Except.ok hsame
  | error => rfl
  | left herror =>
      refine absurd ⟨n, ?_⟩ h.apart
      rw [applyLambda_run hparts, hrun, herror]
  | right hfalse => exact hfalse.elim

/-- The two end the same, up to what is put into lambdas, or one of them with an error that it is
excused for. -/
theorem tracks_ends {L R : EvalError → Prop} {g : Splice} {e : Expr} {env env' : Env}
    {x y : EvalM Value} (h : EvalM.Tracks L R env env' (g.Valued e) x y) :
    (y.run env').1 = (x.run env).1.map g.graft ∨ (∃ err, (x.run env).1 = .error err ∧ L err) ∨
      ∃ err, (y.run env').1 = .error err ∧ R err := by
  unfold EvalM.Tracks at h
  generalize x.run env = run at h ⊢
  generalize y.run env' = run' at h ⊢
  cases h with
  | ok hab => exact .inl (congrArg Except.ok hab.1.1)
  | error => exact .inl rfl
  | left herr => exact .inr (.inl ⟨_, rfl, herr⟩)
  | right herr => exact .inr (.inr ⟨_, rfl, herr⟩)

theorem eq_of_map_graft {g : Splice} {o o' : Except EvalError Value}
    (h : ∀ u, o = .ok u → u.isData = true) (hmap : o = o'.map g.graft) : o' = o := by
  cases o' with
  | error e => exact hmap.symm
  | ok u =>
      have hdata : u.isData = true := (Value.isData_graft u).symm.trans (h _ hmap)
      rw [hmap]
      exact congrArg Except.ok (Value.graft_of_isData hdata).symm

theorem Splices.shared (h : r.Splices custom argument env v s body) {n : Nat} {err : EvalError}
    (hrun : ((applyLambda (r.eval n) custom [v]).run .empty).1 = .error err) :
    ¬ h.Unshared err := by
  rintro (rfl | ⟨⟨name, rfl⟩, hreports⟩)
  · obtain ⟨ty, hparts⟩ := h.parts
    exact h.apart ⟨n, (applyLambda_run hparts).trans ((h.watched n).trans hrun)⟩
  · exact hreports name ⟨by simp, n, hrun⟩

/-- Where the argument is followed as deep as the lambda, it is it that may go too deep. -/
theorem Splices.applies_of_evaluates (h : r.Splices custom argument env v s body)
    (ho : ∀ u, o = .ok u → u.isData = true)
    (hends : r.EvaluatesTo (h.splice.into body) env o) : r.AppliesTo custom [v] o := by
  obtain ⟨hdeep, n, hn⟩ := hends
  obtain ⟨d, hd⟩ := h.value.steady
  -- where the argument ends at all, it ends as it does with the depth that it needs
  have hargument : ∀ m env', h.splice.Around env' →
      Returns (r.eval (0 + m + 1) argument) env' v env' ∨
        EvalError.tooDeep = .tooDeep ∧
          ((r.eval (0 + m + 1) argument).run env').1 = .error .tooDeep := by
    intro m env' henv'
    rcases Nat.le_total d (0 + m + 1) with hle | hle
    · exact .inl (hd _ hle env' henv')
    · rcases (r.eval_deepens hle argument).ends env' with hearly | hsame
      · exact .inr ⟨rfl, hearly⟩
      · exact .inl (hsame.symm.trans (hd d (Nat.le_refl d) env' henv'))
  have htracks := Splice.eval_tracks (L := h.Unshared) (R := fun e => e = .tooDeep) (k := 0) h.fits
    (.inl rfl) (.inl rfl) hargument n h.hosts (h.pair fun _ herr => herr)
  refine ⟨hdeep, n, ?_⟩
  rw [Nat.zero_add] at htracks
  rcases tracks_ends htracks with hmap | ⟨err, herr, hunshared⟩ | ⟨err, herr, rfl⟩
  · rw [h.watched, hn] at hmap
    exact eq_of_map_graft ho hmap
  · exact absurd hunshared (h.shared ((h.watched n).symm.trans herr))
  · exact absurd (hn.symm.trans herr) hdeep

/-- The spliced lambda is followed as much deeper as the argument needs. -/
theorem Splices.evaluates_of_applies (h : r.Splices custom argument env v s body)
    (ho : ∀ u, o = .ok u → u.isData = true) (happlies : r.AppliesTo custom [v] o) :
    r.EvaluatesTo (h.splice.into body) env o := by
  obtain ⟨hdeep, n, hn⟩ := happlies
  obtain ⟨d, hd⟩ := h.value.steady
  have htracks := Splice.eval_tracks (L := fun e => e = .tooDeep ∨ h.Unshared e)
    (R := fun _ => False) (k := d) h.fits (.inr (.inl rfl)) (.inr (.inl rfl))
    (fun m env' henv' => .inl (hd _ (by omega) env' henv')) n h.hosts
    (h.pair fun _ herr => .inr herr)
  refine ⟨hdeep, d + n, ?_⟩
  rcases tracks_ends htracks with hmap | ⟨err, herr, rfl | hunshared⟩ | ⟨err, -, hfalse⟩
  · rw [h.watched, hn] at hmap
    rw [hmap]
    exact map_graft_of_isData ho
  · exact absurd (hn.symm.trans ((h.watched n).symm.trans herr)) hdeep
  · exact absurd hunshared (h.shared ((h.watched n).symm.trans herr))
  · exact hfalse.elim

/-- Splicing a custom lambda means applying it to the value of the argument. -/
theorem betaReduce_ends (h : r.Splices custom argument env v s body) :
    r.SplicingApplies custom argument env v :=
  ⟨_, h.betaReduce, fun _ ho => ⟨h.applies_of_evaluates ho, h.evaluates_of_applies ho⟩⟩

end Registry

/-! ## §3  A body with a lambda of its own -/

/-- The body refers to no other parameter than `s`. -/
theorem Expr.refersOnly_self {s : Parameter} {body : Expr} (h : body.refersOnly [s.id] = true)
    (p : Parameter) (hp : Free p body) : p.id = s.id :=
  List.mem_singleton.mp ((refersOnly_iff body).mp h p hp)

/-- References to the parameter have its type, and constants are data. -/
def Expr.suits (s : Parameter) (e : Expr) : Bool :=
  e.nodes.all fun
    | .param p => p.id != s.id || p.ty == s.ty
    | .const v _ => v.isData
    | _ => true

theorem Expr.suits_refersAs {s : Parameter} {e : Expr} (h : e.suits s = true) :
    e.RefersAs s.id s.ty := by
  intro p hp hid
  have hnode := List.all_eq_true.mp h (.param p) hp
  simpa [hid] using hnode

theorem Expr.suits_isData (s : Parameter) {e : Expr} (h : e.suits s = true) (c : Value) (t : Ty)
    (hc : .const c t ∈ e.nodes) : c.isData = true :=
  List.all_eq_true.mp h (.const c t) hc

namespace Splicing

def number (n : Int) : Expr := .const (.int n) .int32

/-- `items.Select(f)` over integers. -/
def select (items : List Expr) (f : Expr) : Expr :=
  .call none
    ⟨⟨"Enumerable", "Select", true, 2,
        [.seq .enumerable (.param 0), .func [.param 0] (.param 1)], .seq .enumerable (.param 1)⟩,
      [.int32, .int32], [.seq .enumerable .int32, .func [.int32] .int32], .seq .enumerable .int32⟩
    [.newArray (.array .int32) items, f]

def price : Member := ⟨"Price", .int32⟩

/-- Books are items. -/
def shop : Registry :=
  { declarations := [.record "Item" none [price], .record "Book" (some (.declared 0)) []] }

def item : Parameter := ⟨0, "item", .declared 0⟩

def count : Parameter := ⟨1, "count", .int32⟩

def book : Parameter := ⟨2, "book", .declared 1⟩

/-- `[2, 3].Select(count => item.Price * count)` -/
def prices : Expr :=
  select [number 2, number 3]
    (.lambda [count]
      (.binary .multiply (.member (.param item) price) (.param count) none .int32)
      (.func [.int32] .int32))

def pricesOf : Expr :=
  .lambda [item] prices (.func [.declared 0] (.seq .enumerable .int32))

def novel : Value := .record (.declared 1) [("Price", .int 5)]

/-- Where the book is bound. -/
def stand : Env := Scope.empty.push [(2, novel)]

open Registry

theorem prices_splices : shop.Splices pricesOf (.param book) stand novel item prices where
  parts := ⟨_, rfl⟩
  refers := Expr.suits_refersAs (by decide)
  typed := .inr ⟨by decide, by decide, .inr ⟨_, _, rfl⟩⟩
  data := by decide
  value := ⟨by simp, 1, rfl⟩
  binds := by decide
  closed := Expr.refersOnly_self (by decide)
  constants := Expr.suits_isData item (by decide)
  bound := .inl fun name h => by
    have hvalue : shop.AppliesTo pricesOf [novel] (.ok (.list [.int 10, .int 15])) :=
      ⟨by simp, 6, rfl⟩
    cases hvalue.unique h
  apart :=
    not_comparesLambdas (n := 6) (o := .ok (.list [.int 10, .int 15])) rfl (by simp) (by simp)

end Splicing

open Splicing Registry in
theorem betaReduce_ends_prices :
    ∃ spliced, shop.betaReduce pricesOf (.param book) = .ok spliced ∧
      shop.EvaluatesTo spliced stand (.ok (.list [.int 10, .int 15])) := by
  obtain ⟨spliced, hspliced, hends⟩ := betaReduce_ends prices_splices
  refine ⟨spliced, hspliced, (hends _ ?_).mpr ⟨by simp, 6, rfl⟩⟩
  rintro _ ⟨⟩
  rfl

/-! ## §4  Where splicing is not applying -/

/-- What is asked of the argument, read off it without evaluating it: the parameters that are free
in it stand for those that its evaluation looks up. -/
structure Registry.SplicesFreely (r : Registry) (custom argument : Expr) (env : Env) (v : Value)
    (s : Parameter) (body : Expr) : Prop extends r.Hygienic custom s body v where
  typed : argument.ty = s.ty ∨ r.extends? argument.ty s.ty = true
  value : r.EvaluatesTo argument env (.ok v)
  avoids : ∀ p, Expr.Free p argument → p.id ∉ body.bound

namespace Splicing

open Registry

/-- The lambda ends with data where the spliced one ends otherwise. -/
theorem not_splicingApplies {r : Registry} {custom argument spliced : Expr} {env : Env} {v : Value}
    {o u : Except EvalError Value} (hspliced : r.betaReduce custom argument = .ok spliced)
    (ho : ∀ u, o = .ok u → u.isData = true) (happlies : r.AppliesTo custom [v] o)
    (hevaluates : r.EvaluatesTo spliced env u) (hdiffer : o ≠ u) :
    ¬ r.SplicingApplies custom argument env v := by
  rintro ⟨spliced', hspliced', hends⟩
  obtain rfl : spliced = spliced' := Except.ok.inj (hspliced.symm.trans hspliced')
  exact hdiffer (((hends o ho).mpr happlies).unique hevaluates)

def x : Parameter := ⟨0, "x", .int32⟩

def y : Parameter := ⟨1, "y", .int32⟩

def s : Parameter := ⟨2, "s", .int32⟩

/-- `(x => y => x)(first)(second)` -/
def escaping (first second : Expr) : Expr :=
  .invoke
    (.invoke (.lambda [x] (.lambda [y] (.param x) (.func [.int32] .int32))
      (.func [.int32] (.func [.int32] .int32))) [first] (.func [.int32] .int32))
    [second] .int32

/-- Where `x` is bound to 7. -/
def seven : Env := Scope.empty.push [(0, .int 7)]

/-- `[10].Select(x => s)` -/
def repeated : Expr := select [number 10] (.lambda [x] (.param s) (.func [.int32] .int32))

def repeatedOf : Expr := .lambda [s] repeated (.func [.int32] (.seq .enumerable .int32))

theorem repeated_splicesFreely :
    Registry.standard.SplicesFreely repeatedOf (escaping (number 1) (number 2)) seven (.int 7) s
      repeated where
  parts := ⟨_, rfl⟩
  refers := Expr.suits_refersAs (by decide)
  typed := .inl rfl
  data := rfl
  value := ⟨by simp, 6, rfl⟩
  binds := by decide
  avoids p hp := absurd hp ((by decide : (escaping (number 1) (number 2)).Closed) p)
  closed := Expr.refersOnly_self (by decide)
  constants := Expr.suits_isData s (by decide)
  apart := not_comparesLambdas (n := 6) (o := .ok (.list [.int 7])) rfl (by simp) (by simp)

/-- The argument looks up `x` and finds that of the lambda around it. -/
theorem repeated_differs :
    ¬ Registry.standard.SplicingApplies repeatedOf (escaping (number 1) (number 2)) seven
      (.int 7) :=
  not_splicingApplies (o := .ok (.list [.int 7])) (u := .ok (.list [.int 10])) rfl
    (by rintro _ ⟨⟩; rfl) ⟨by simp, 6, rfl⟩ ⟨by simp, 12, rfl⟩ nofun

/-- `s => (x => y => x)(s)(2)` -/
def escapingOf : Expr :=
  .lambda [s] (escaping (.param s) (number 2)) (.func [.int32] .int32)

theorem escaping_splicesFreely :
    Registry.standard.SplicesFreely escapingOf (number 1) seven (.int 1) s
      (escaping (.param s) (number 2)) where
  parts := ⟨_, rfl⟩
  refers := Expr.suits_refersAs (by decide)
  typed := .inl rfl
  data := rfl
  value := ⟨by simp, 1, rfl⟩
  binds := by decide
  avoids p hp := absurd hp ((by decide : (number 1).Closed) p)
  closed := Expr.refersOnly_self (by decide)
  constants := Expr.suits_isData s (by decide)
  apart := not_comparesLambdas (n := 6) (o := .error (.unboundParameter "x")) rfl (by simp)
    (by simp [lambdasCompared])

/-- The body looks up a parameter of a lambda that is not applied any more, and finds that of the
environment. -/
theorem escaping_differs :
    ¬ Registry.standard.SplicingApplies escapingOf (number 1) seven (.int 1) :=
  not_splicingApplies (o := .error (.unboundParameter "x")) (u := .ok (.int 7)) rfl
    nofun ⟨by simp, 6, rfl⟩ ⟨by simp, 6, rfl⟩ nofun

/-- `item => item is Book` -/
def isBook : Expr :=
  .lambda [item] (.typeIs (.param item) (.declared 1) .boolean) (.func [.declared 0] .boolean)

/-- A number where a book is expected. -/
def mistaken : Expr := .const (.int 5) (.declared 1)

theorem mistaken_splicesFreely :
    shop.SplicesFreely isBook mistaken .empty (.int 5) item
      (.typeIs (.param item) (.declared 1) .boolean) where
  parts := ⟨_, rfl⟩
  refers := Expr.suits_refersAs (by decide)
  typed := .inr (by decide)
  data := rfl
  value := ⟨by simp, 1, rfl⟩
  binds := by decide
  avoids p hp := absurd hp ((by decide : mistaken.Closed) p)
  closed := Expr.refersOnly_self (by decide)
  constants := Expr.suits_isData item (by decide)
  apart := not_comparesLambdas (n := 3) (o := .ok (.bool false)) rfl (by simp) (by simp)

/-- What is no record is tested by its static type. -/
theorem mistaken_differs : ¬ shop.SplicingApplies isBook mistaken .empty (.int 5) :=
  not_splicingApplies (o := .ok (.bool false)) (u := .ok (.bool true)) rfl
    (by rintro _ ⟨⟩; rfl) ⟨by simp, 3, rfl⟩ ⟨by simp, 3, rfl⟩ nofun

/-- A record that derives from an optional number. -/
def optional : Registry := { declarations := [.record "Quantity" (some (.nullable .int32)) []] }

def quantity : Parameter := ⟨0, "quantity", .nullable .int32⟩

/-- `quantity => quantity.HasValue` -/
def hasValue : Expr :=
  .lambda [quantity] (.member (.param quantity) ⟨"HasValue", .boolean⟩)
    (.func [.nullable .int32] .boolean)

theorem hasValue_splicesFreely :
    optional.SplicesFreely hasValue (.new (.declared 0) []) .empty (.record (.declared 0) [])
      quantity (.member (.param quantity) ⟨"HasValue", .boolean⟩) where
  parts := ⟨_, rfl⟩
  refers := Expr.suits_refersAs (by decide)
  typed := .inr (by decide)
  data := rfl
  value := ⟨by simp, 2, rfl⟩
  binds := by decide
  avoids p hp := absurd hp ((by decide : (Expr.new (.declared 0) []).Closed) p)
  closed := Expr.refersOnly_self (by decide)
  constants := Expr.suits_isData quantity (by decide)
  apart := not_comparesLambdas (n := 3) (o := .ok (.bool true)) rfl (by simp) (by simp)

/-- The members of optional values go by the static type. -/
theorem hasValue_differs :
    ¬ optional.SplicingApplies hasValue (.new (.declared 0) []) .empty
      (.record (.declared 0) []) :=
  not_splicingApplies (o := .ok (.bool true))
    (u := .error (.noSuchMember "HasValue" (Value.record (.declared 0) []).text)) rfl
    (by rintro _ ⟨⟩; rfl) ⟨by simp, 3, rfl⟩ ⟨by simp, 3, rfl⟩ nofun

end Splicing

open Splicing in
/-- Splicing is not applying where the argument looks up a parameter that is not free in it, where
the body looks up one of a lambda that is not applied any more, where what stands for a record is
none, and where a record stands for an optional value. -/
theorem betaReduce_ends_fails :
    (Registry.standard.SplicesFreely repeatedOf (escaping (number 1) (number 2)) seven (.int 7) s
        repeated ∧
      ¬ Registry.standard.SplicingApplies repeatedOf (escaping (number 1) (number 2)) seven
        (.int 7)) ∧
    (Registry.standard.SplicesFreely escapingOf (number 1) seven (.int 1) s
        (escaping (.param s) (number 2)) ∧
      ¬ Registry.standard.SplicingApplies escapingOf (number 1) seven (.int 1)) ∧
    (shop.SplicesFreely isBook mistaken .empty (.int 5) item
        (.typeIs (.param item) (.declared 1) .boolean) ∧
      ¬ shop.SplicingApplies isBook mistaken .empty (.int 5)) ∧
    (optional.SplicesFreely hasValue (.new (.declared 0) []) .empty (.record (.declared 0) [])
        quantity (.member (.param quantity) ⟨"HasValue", .boolean⟩) ∧
      ¬ optional.SplicingApplies hasValue (.new (.declared 0) []) .empty
        (.record (.declared 0) [])) :=
  ⟨⟨repeated_splicesFreely, repeated_differs⟩, ⟨escaping_splicesFreely, escaping_differs⟩,
    ⟨mistaken_splicesFreely, mistaken_differs⟩, ⟨hasValue_splicesFreely, hasValue_differs⟩⟩

end Recast
