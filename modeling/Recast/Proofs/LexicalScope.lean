import Recast.Proofs.EvalAgreement
import Recast.Proofs.Lockstep
import Recast.Proofs.Rebinding
import Recast.Proofs.Typing
import Recast.Ty.Catalogue

/-! # Lexical scope

A lambda value carries no bindings: its free parameters are looked up where it is
applied.  Here evaluation is compared with one where a lambda carries the bindings in
force where it was made.  The two agree on expressions whose lambdas with free
parameters are applied where they stand, by a sequence operator, an invocation or a
coalescing conversion; lambdas that are closed may be returned, stored and applied
anywhere.  `(x => y => x + y)(1)(2)` is what they differ on
(`evaluate_eq_evaluateLexically_fails`).

- `Registry.evaluateLexically` — lambdas carry their bindings.
- `Expr.AppliesInPlace` — no open lambda leaves the place where it stands.
- `Registry.evaluate_eq_evaluateLexically` — the two evaluations agree.
-/

namespace Recast

/-! ## §1  Lambdas that carry bindings -/

namespace Expr

/-- The bindings without those of parameters that a lambda binds anew. -/
def hide (ps : List Parameter) (σ : Nat → Option Value) (id : Nat) : Option Value :=
  if ps.any (·.id == id) then none else σ id

mutual

/-- The expression with values in the place of references that no lambda in it binds. -/
def capture (σ : Nat → Option Value) : Expr → Expr
  | .param p =>
    match σ p.id with
    | some v => .const v p.ty
    | none => .param p
  | e@(.const _ _) | e@(.default _) => e
  | .member e m => .member (capture σ e) m
  | .lambda ps body t => .lambda ps (capture (hide ps σ) body) t
  | .unary op e t => .unary op (capture σ e) t
  | .binary op l r none t => .binary op (capture σ l) (capture σ r) none t
  | .binary op l r (some c) t => .binary op (capture σ l) (capture σ r) (some (capture σ c)) t
  | .cond c a b t => .cond (capture σ c) (capture σ a) (capture σ b) t
  | .call none m args => .call none m (captureAll σ args)
  | .call (some e) m args => .call (some (capture σ e)) m (captureAll σ args)
  | .new t inits => .new t (captureInits σ inits)
  | .newArray t items => .newArray t (captureAll σ items)
  | .typeIs e tested t => .typeIs (capture σ e) tested t
  | .invoke f args t => .invoke (capture σ f) (captureAll σ args) t

def captureAll (σ : Nat → Option Value) : List Expr → List Expr
  | [] => []
  | e :: es => capture σ e :: captureAll σ es

def captureInits (σ : Nat → Option Value) : List (String × Expr) → List (String × Expr)
  | [] => []
  | (name, e) :: es => (name, capture σ e) :: captureInits σ es

end

theorem captureAll_eq (σ : Nat → Option Value) : ∀ es : List Expr,
    captureAll σ es = es.map (capture σ)
  | [] => rfl
  | e :: es => by rw [captureAll, captureAll_eq σ es, List.map_cons]

theorem captureInits_eq (σ : Nat → Option Value) : ∀ inits : List (String × Expr),
    captureInits σ inits = inits.map fun i => (i.1, capture σ i.2)
  | [] => rfl
  | (_, e) :: inits => by rw [captureInits, captureInits_eq σ inits, List.map_cons]

/-- The node over other children. -/
def mapChildren (f : Expr → Expr) : Expr → Expr
  | .member e m => .member (f e) m
  | .lambda ps body t => .lambda ps (f body) t
  | .unary op e t => .unary op (f e) t
  | .binary op l r conversion t => .binary op (f l) (f r) (conversion.map f) t
  | .cond c a b t => .cond (f c) (f a) (f b) t
  | .call target m args => .call (target.map f) m (args.map f)
  | .new t inits => .new t (inits.map fun i => (i.1, f i.2))
  | .newArray t items => .newArray t (items.map f)
  | .typeIs e tested t => .typeIs (f e) tested t
  | .invoke g args t => .invoke (f g) (args.map f) t
  | e => e

theorem mapChildren_congr {f g : Expr → Expr} {e : Expr} (h : ∀ c ∈ e.children, f c = g c) :
    e.mapChildren f = e.mapChildren g := by
  cases e using shapes with
  | new t inits =>
      simp only [mapChildren, new.injEq, List.map_inj_left, Prod.mk.injEq, true_and]
      exact fun i hi => h i.2 (List.mem_map_of_mem hi)
  | _ => simp_all [mapChildren, children]

theorem mapChildren_id (e : Expr) : e.mapChildren id = e := by
  cases e using shapes <;> simp [mapChildren]

theorem mapChildren_mapChildren (f g : Expr → Expr) (e : Expr) :
    (e.mapChildren f).mapChildren g = e.mapChildren fun c => g (f c) := by
  cases e using shapes <;> simp [mapChildren]

theorem plain_mapChildren {f : Expr → Expr} {e : Expr} (he : e.Plain) : (e.mapChildren f).Plain := by
  cases e using shapes with
  | param | lambda => exact he.elim
  | _ => trivial

theorem capture_plain {e : Expr} (σ : Nat → Option Value) (he : e.Plain) :
    capture σ e = e.mapChildren (capture σ) := by
  cases e using shapes with
  | param | lambda => exact he.elim
  | _ => simp [capture, mapChildren, captureAll_eq, captureInits_eq]

@[simp] theorem ty_capture (σ : Nat → Option Value) (e : Expr) : (capture σ e).ty = e.ty := by
  cases e using shapes with
  | param p =>
      rw [capture]
      split <;> rfl
  | _ => rfl

/-- What no free reference names is not put in. -/
theorem capture_eq_self (e : Expr) : ∀ {σ : Nat → Option Value},
    (∀ p, Free p e → σ p.id = none) → capture σ e = e := by
  induction e using induction_children with
  | step e ih =>
      intro σ h
      by_cases hplain : e.Plain
      · rw [capture_plain σ hplain]
        refine (mapChildren_congr fun c hc => ?_).trans e.mapChildren_id
        exact ih c hc fun p hp => h p ((free_plain hplain).mpr ⟨c, hc, hp⟩)
      · cases e with
        | param p => rw [capture, h p .reference]
        | lambda ps body t =>
            have hbody : capture (hide ps σ) body = body := by
              refine ih body (by simp [children]) fun p hp => ?_
              unfold hide
              split
              · rfl
              · rename_i hps
                refine h p (.lambda hp fun q hq hid => hps ?_)
                exact List.any_eq_true.mpr ⟨q, hq, beq_iff_eq.mpr hid⟩
            rw [capture, hbody]
        | _ => exact absurd trivial hplain

/-- Values are put in for what earlier ones left. -/
theorem capture_capture (e : Expr) : ∀ {σ τ : Nat → Option Value},
    capture τ (capture σ e) = capture (fun id => (σ id).or (τ id)) e := by
  induction e using induction_children with
  | step e ih =>
      intro σ τ
      by_cases hplain : e.Plain
      · rw [capture_plain σ hplain, capture_plain τ (plain_mapChildren hplain),
          mapChildren_mapChildren, capture_plain _ hplain]
        exact mapChildren_congr fun c hc => ih c hc
      · cases e with
        | param p =>
            cases hσ : σ p.id with
            | some v => simp [capture, hσ]
            | none => simp [capture, hσ]
        | lambda ps body t =>
            have hhide : (fun id => (hide ps σ id).or (hide ps τ id)) =
                hide ps fun id => (σ id).or (τ id) := by
              funext id
              unfold hide
              split <;> rfl
            rw [capture, capture, capture, ih body (by simp [children]), hhide]
        | _ => exact absurd trivial hplain

end Expr

/-- The bindings of the innermost frame alone. -/
def Scope.innermost {κ ν : Type} (s : Scope κ ν) : Scope κ ν :=
  { bindings := s.bindings.take (s.bindings.length - s.marks.headD 0) }

theorem Scope.get?_innermost_push {κ ν : Type} [BEq κ] {s : Scope κ ν} {frame : List (κ × ν)}
    {key : κ} :
    (s.push frame).innermost.get? key = (frame.reverse.find? (·.1 == key)).map (·.2) := by
  simp [innermost, push, get?]

namespace Registry

variable (r : Registry)

/-- Evaluation where a lambda carries the bindings in force where it was made: its references to
them are their values from then on.  No other frame than the innermost is looked at, so that
nothing is found where the lambda is applied that its own parameters do not name. -/
def evalLexically : Nat → Expr → EvalM Value
  | 0, _ => throw .tooDeep
  | _ + 1, .param p => do
    match (← get).innermost.get? p.id with
    | some v => pure v
    | none => throw (.unboundParameter p.name)
  | _ + 1, .lambda ps body ty => do
    let env ← get
    pure (.lambda (Expr.capture env.innermost.get? (.lambda ps body ty)))
  | n + 1, e => r.evalNode (evalLexically n) e

/-- The value of a closed expression where lambdas carry their bindings. -/
def evaluateLexically (e : Expr) : Except EvalError Value :=
  ((r.evalLexically evalDepth e).run.run .empty).1

end Registry

/-! ## §2  Lambdas applied in place -/

/-- The method applies the arguments after the sequence, if they are lambdas, and does nothing else
with them. -/
def Method.Applies (m : Method) : Prop :=
  (m.declaring = "Enumerable" ∨ m.declaring = "Queryable") ∧ m.name ≠ "Contains"

instance (m : Method) : Decidable m.Applies := inferInstanceAs (Decidable (_ ∧ _))

namespace Expr

mutual

/-- No other parameters than these are free. -/
def refersOnly (ids : List Nat) : Expr → Bool
  | .param p => ids.contains p.id
  | .const _ _ | .default _ => true
  | .member e _ => refersOnly ids e
  | .lambda ps body _ => refersOnly (ps.map (·.id) ++ ids) body
  | .unary _ e _ => refersOnly ids e
  | .binary _ l r none _ => refersOnly ids l && refersOnly ids r
  | .binary _ l r (some c) _ => refersOnly ids l && refersOnly ids r && refersOnly ids c
  | .cond c a b _ => refersOnly ids c && refersOnly ids a && refersOnly ids b
  | .call none _ args => refersOnlyAll ids args
  | .call (some e) _ args => refersOnly ids e && refersOnlyAll ids args
  | .new _ inits => refersOnlyInits ids inits
  | .newArray _ items => refersOnlyAll ids items
  | .typeIs e _ _ => refersOnly ids e
  | .invoke f args _ => refersOnly ids f && refersOnlyAll ids args

def refersOnlyAll (ids : List Nat) : List Expr → Bool
  | [] => true
  | e :: es => refersOnly ids e && refersOnlyAll ids es

def refersOnlyInits (ids : List Nat) : List (String × Expr) → Bool
  | [] => true
  | (_, e) :: es => refersOnly ids e && refersOnlyInits ids es

end

theorem refersOnlyAll_eq (ids : List Nat) : ∀ es : List Expr,
    refersOnlyAll ids es = es.all (refersOnly ids)
  | [] => rfl
  | e :: es => by rw [refersOnlyAll, refersOnlyAll_eq ids es, List.all_cons]

theorem refersOnlyInits_eq (ids : List Nat) : ∀ inits : List (String × Expr),
    refersOnlyInits ids inits = (inits.map (·.2)).all (refersOnly ids)
  | [] => rfl
  | (_, e) :: inits => by rw [refersOnlyInits, refersOnlyInits_eq ids inits, List.map_cons, List.all_cons]

theorem refersOnly_plain {ids : List Nat} {e : Expr} (he : e.Plain) :
    e.refersOnly ids = e.children.all (refersOnly ids) := by
  cases e using shapes with
  | param | lambda => exact he.elim
  | _ => simp [refersOnly, children, refersOnlyAll_eq, refersOnlyInits_eq, Bool.and_assoc]

theorem refersOnly_iff (e : Expr) : ∀ {ids : List Nat},
    e.refersOnly ids = true ↔ ∀ p, Free p e → p.id ∈ ids := by
  induction e using induction_children with
  | step e ih =>
      intro ids
      by_cases hplain : e.Plain
      · rw [refersOnly_plain hplain, List.all_eq_true]
        constructor
        · intro h p hp
          obtain ⟨c, hc, hp⟩ := (free_plain hplain).mp hp
          exact (ih c hc).mp (h c hc) p hp
        · exact fun h c hc => (ih c hc).mpr fun p hp => h p ((free_plain hplain).mpr ⟨c, hc, hp⟩)
      · cases e with
        | param q =>
            simp only [refersOnly, List.contains_iff_mem, free_param]
            exact ⟨fun h p hp => hp ▸ h, fun h => h q rfl⟩
        | lambda ps body t =>
            simp only [refersOnly, ih body (by simp [children]), List.mem_append, List.mem_map,
              free_lambda]
            constructor
            · rintro h p ⟨hbody, hps⟩
              rcases h p hbody with ⟨q, hq, hid⟩ | h
              · exact absurd hid (hps q hq)
              · exact h
            · intro h p hbody
              by_cases hps : ∃ q ∈ ps, q.id = p.id
              · exact .inl hps
              · exact .inr (h p ⟨hbody, fun q hq hid => hps ⟨q, hq, hid⟩⟩)
        | _ => exact absurd trivial hplain

/-- No parameter is free. -/
def Closed (e : Expr) : Prop := ∀ p, ¬ Free p e

instance (e : Expr) : Decidable e.Closed :=
  decidable_of_iff (e.refersOnly [] = true) ((refersOnly_iff e).trans (by simp [Closed]))

/-- The expression is an open lambda or passes one on as it stands. -/
def PassesOpen : Expr → Prop
  | .lambda ps body t => ¬ Closed (.lambda ps body t)
  | .unary op e _ => (op = .quote ∨ op.isConversion = true) ∧ PassesOpen e
  | .cond _ a b _ => PassesOpen a ∨ PassesOpen b
  | .binary op l r conversion _ =>
    op = .coalesce ∧ (conversion.isNone = true ∧ PassesOpen l ∨ PassesOpen r)
  | .param _ | .const _ _ | .member _ _ | .call _ _ _ | .new _ _ | .newArray _ _ | .typeIs _ _ _
  | .invoke _ _ _ | .default _ => False

instance decidablePassesOpen : ∀ e : Expr, Decidable e.PassesOpen
  | .lambda ps body t => inferInstanceAs (Decidable (¬ Closed (.lambda ps body t)))
  | .unary op e _ =>
    have := decidablePassesOpen e
    inferInstanceAs (Decidable ((op = .quote ∨ op.isConversion = true) ∧ e.PassesOpen))
  | .cond _ a b _ =>
    have := decidablePassesOpen a
    have := decidablePassesOpen b
    inferInstanceAs (Decidable (a.PassesOpen ∨ b.PassesOpen))
  | .binary op l r conversion _ =>
    have := decidablePassesOpen l
    have := decidablePassesOpen r
    inferInstanceAs (Decidable
      (op = .coalesce ∧ (conversion.isNone = true ∧ l.PassesOpen ∨ r.PassesOpen)))
  | .param _ | .const _ _ | .member _ _ | .call _ _ _ | .new _ _ | .newArray _ _ | .typeIs _ _ _
  | .invoke _ _ _ | .default _ => instDecidableFalse

/-- Constants hold no lambdas, and an open lambda below the node is applied by it or passed on. -/
def AppliesInPlace : Expr → Prop
  | .const v _ => v.isData = true
  | .unary op e _ => op = .quote ∨ op.isConversion = true ∨ ¬ e.PassesOpen
  | .cond test _ _ _ => ¬ test.PassesOpen
  | .binary op l r conversion _ =>
    (op = .coalesce ∨ ¬ l.PassesOpen ∧ ¬ r.PassesOpen) ∧ (conversion.isNone = true ∨ ¬ l.PassesOpen)
  | .call target m args =>
    (∀ e ∈ target.toList, ¬ e.PassesOpen) ∧ (m.Applies ∨ ∀ e ∈ args, ¬ e.PassesOpen)
  | .invoke _ args _ => ∀ e ∈ args, ¬ e.PassesOpen
  | e => ∀ c ∈ e.children, ¬ c.PassesOpen

instance (e : Expr) : Decidable e.AppliesInPlace := by
  unfold AppliesInPlace
  split <;> infer_instance

/-- The parameters that the node binds. -/
def binds : Expr → List Nat
  | .lambda ps _ _ => ps.map (·.id)
  | _ => []

/-- Every lambda of the expression is closed or applied where it stands. -/
def InPlace (e : Expr) : Prop := ∀ n ∈ e.nodes, n.AppliesInPlace

instance (e : Expr) : Decidable e.InPlace := inferInstanceAs (Decidable (∀ n ∈ e.nodes, _))

variable {e c : Expr}

theorem InPlace.here (h : e.InPlace) : e.AppliesInPlace := h e (mem_nodes_self e)

theorem InPlace.child (h : e.InPlace) (hc : c ∈ e.children) : c.InPlace :=
  fun n hn => h n (nodes_subset_of_child hc hn)

theorem Closed.child (h : e.Closed) (he : ∀ ps body t, e ≠ .lambda ps body t)
    (hc : c ∈ e.children) : c.Closed := fun _ hp => h _ (.child he hc hp)

theorem Closed.not_passesOpen (h : e.Closed) : ¬ e.PassesOpen := by
  induction e using induction_children with
  | step e ih =>
      have hchild : ∀ c ∈ e.children, (∀ ps body t, e ≠ .lambda ps body t) → ¬ c.PassesOpen :=
        fun c hc he => ih c hc (h.child he hc)
      cases e with
      | lambda ps body t => exact not_not_intro h
      | unary op e t => exact fun hopen => hchild e (by simp [children]) (by simp) hopen.2
      | cond test a b t =>
          rintro (ha | hb)
          · exact hchild a (by simp [children]) (by simp) ha
          · exact hchild b (by simp [children]) (by simp) hb
      | binary op l r conversion t =>
          have hl := hchild l (by simp [children]) (by simp)
          have hr := hchild r (by simp [children]) (by simp)
          exact fun hopen => hopen.2.elim (fun h => hl h.2) hr
      | _ => exact id

end Expr

namespace Value

mutual

/-- The lambdas that stand in the value. -/
def lambdas : Value → List Expr
  | .lambda e => [e]
  | .record _ fields => lambdasOfFields fields
  | .list items => lambdasOfItems items
  | _ => []

def lambdasOfItems : List Value → List Expr
  | [] => []
  | v :: vs => lambdas v ++ lambdasOfItems vs

def lambdasOfFields : List (String × Value) → List Expr
  | [] => []
  | (_, v) :: fields => lambdas v ++ lambdasOfFields fields

end

/-- The lambdas in the value depend on no binding, wherever they are applied. -/
def Settled (v : Value) : Prop := ∀ e ∈ v.lambdas, e.Closed ∧ e.InPlace

theorem lambdasOfItems_eq : ∀ vs : List Value, lambdasOfItems vs = vs.flatMap lambdas
  | [] => rfl
  | v :: vs => by rw [lambdasOfItems, lambdasOfItems_eq vs, List.flatMap_cons]

theorem lambdasOfFields_eq : ∀ fields : List (String × Value),
    lambdasOfFields fields = fields.flatMap fun f => lambdas f.2
  | [] => rfl
  | (_, v) :: fields => by rw [lambdasOfFields, lambdasOfFields_eq fields, List.flatMap_cons]

variable {v w : Value}

mutual

theorem lambdas_of_isData : ∀ {v : Value}, v.isData = true → v.lambdas = []
  | .lambda _, h => by cases h
  | .record _ _, h => lambdasOfFields_of_isData h
  | .list _, h => lambdasOfItems_of_isData h
  | .null, _ | .bool _, _ | .num _, _ | .char _, _ | .str _, _ | .guid _, _ | .dateTime _, _
  | .dateTimeOffset _, _ | .timeSpan _, _ | .enum _, _ => rfl

theorem lambdasOfItems_of_isData : ∀ {vs : List Value}, isDataAll vs = true → lambdasOfItems vs = []
  | [], _ => rfl
  | v :: vs, h => by
      obtain ⟨hv, hvs⟩ := Bool.and_eq_true _ _ |>.mp h
      rw [lambdasOfItems, lambdas_of_isData hv, lambdasOfItems_of_isData hvs, List.nil_append]

theorem lambdasOfFields_of_isData : ∀ {fields : List (String × Value)},
    isDataFields fields = true → lambdasOfFields fields = []
  | [], _ => rfl
  | (_, v) :: fields, h => by
      obtain ⟨hv, hfields⟩ := Bool.and_eq_true _ _ |>.mp h
      rw [lambdasOfFields, lambdas_of_isData hv, lambdasOfFields_of_isData hfields, List.nil_append]

end

theorem settled_of_isData (h : v.isData = true) : v.Settled := by
  intro e he
  rw [lambdas_of_isData h] at he
  cases he

theorem settled_list {vs : List Value} : (Value.list vs).Settled ↔ ∀ v ∈ vs, v.Settled := by
  simp only [Settled, lambdas, lambdasOfItems_eq, List.mem_flatMap]
  constructor
  · exact fun h v hv e he => h e ⟨v, hv, he⟩
  · rintro h e ⟨v, hv, he⟩
    exact h v hv e he

theorem settled_record {t : Ty} {fields : List (String × Value)} :
    (Value.record t fields).Settled ↔ ∀ f ∈ fields, f.2.Settled := by
  simp only [Settled, lambdas, lambdasOfFields_eq, List.mem_flatMap]
  constructor
  · exact fun h f hf e he => h e ⟨f, hf, he⟩
  · rintro h e ⟨f, hf, he⟩
    exact h f hf e he

theorem Settled.castValue {r : Registry} {s t : Ty} (hv : v.Settled)
    (h : r.castValue v s t = .ok w) : w.Settled := by
  rcases Registry.castValue_cases h with hw | rfl
  · exact settled_of_isData hw
  · exact hv

theorem Settled.valueMember {isNullable : Bool} {name : String} (hv : v.Settled)
    (h : valueMember isNullable v name = .ok w) : w.Settled := by
  rcases valueMember_cases h with hw | rfl | ⟨t, fields, rfl, hmem⟩
  · exact settled_of_isData hw
  · exact hv
  · exact settled_record.mp hv _ hmem

theorem Settled.operatorValue {integral : Bool} {op : BinaryOp} {b : Value} (hv : v.Settled)
    (h : operatorValue integral op v b = .ok w) : w.Settled := by
  rcases operatorValue_cases h with hw | ⟨items, rfl, hmem⟩
  · exact settled_of_isData hw
  · exact settled_list.mp hv w hmem

/-- What becomes of a sequence is made of items and answers. -/
theorem settled_of_operatorResult {name : String}
    (h : operatorResult Settled Settled name v) : v.Settled := by
  rcases operatorResult_cases h with (⟨b, rfl⟩ | ⟨n, rfl⟩) | ⟨vs, rfl, hitems | hanswers⟩ | rfl | h | h
  · exact settled_of_isData rfl
  · exact settled_of_isData rfl
  · exact settled_list.mpr hitems
  · exact settled_list.mpr hanswers
  · exact settled_of_isData rfl
  · exact h
  · exact h

end Value

/-! ## §3  Mirrored computations -/

namespace EvalM

/-- How two runs end: with related results and their environments as they were, with the same error,
or the second with a parameter that is bound to nothing. -/
inductive Mirrored {α β : Type} (P : α → β → Prop) (env env' : Env) :
    Except EvalError α × Env → Except EvalError β × Env → Prop
  | ok {a b} (h : P a b) : Mirrored P env env' (.ok a, env) (.ok b, env')
  | error {e s s'} : Mirrored P env env' (.error e, s) (.error e, s')
  | unbound {run name s'} : Mirrored P env env' run (.error (.unboundParameter name), s')

/-- The second computation is told apart from the first only by a parameter that is not bound. -/
def Mirrors {α β : Type} (env env' : Env) (P : α → β → Prop) (x : EvalM α) (y : EvalM β) : Prop :=
  Mirrored P env env' (x.run env) (y.run env')

variable {α β γ δ : Type} {env env' : Env} {P : α → β → Prop} {Q : γ → δ → Prop}

theorem mirrors_pure {a : α} {b : β} (h : P a b) : Mirrors env env' P (pure a) (pure b) := .ok h

theorem mirrors_throw {e : EvalError} : Mirrors env env' P (throw e) (throw e) := .error

theorem mirrors_bind {x : EvalM α} {y : EvalM β} {f : α → EvalM γ} {g : β → EvalM δ}
    (h : Mirrors env env' P x y) (hf : ∀ a b, P a b → Mirrors env env' Q (f a) (g b)) :
    Mirrors env env' Q (x >>= f) (y >>= g) := by
  unfold Mirrors at h ⊢
  rw [run_bind, run_bind]
  generalize x.run env = run at h
  generalize y.run env' = run' at h
  cases h with
  | ok hab => exact hf _ _ hab
  | error => exact .error
  | unbound => exact .unbound

theorem mirrors_mono {P' : α → β → Prop} {x : EvalM α} {y : EvalM β} (h : Mirrors env env' P x y)
    (hP : ∀ a b, P a b → P' a b) : Mirrors env env' P' x y := by
  unfold Mirrors at h ⊢
  generalize x.run env = run at h
  generalize y.run env' = run' at h
  cases h with
  | ok hab => exact .ok (hP _ _ hab)
  | error => exact .error
  | unbound => exact .unbound

theorem mirrors_map {x : EvalM α} {y : EvalM β} {f : α → γ} {g : β → δ}
    (h : Mirrors env env' P x y) (hf : ∀ a b, P a b → Q (f a) (g b)) :
    Mirrors env env' Q (f <$> x) (g <$> y) := by
  rw [map_eq_pure_bind, map_eq_pure_bind]
  exact mirrors_bind h fun a b hab => mirrors_pure (hf a b hab)

theorem mirrors_ofExcept {x : Except EvalError α} {P : α → α → Prop}
    (h : ∀ a, x = .ok a → P a a) : Mirrors env env' P (ofExcept x) (ofExcept x) := by
  cases x with
  | error e => exact mirrors_throw
  | ok a => exact mirrors_pure (h a rfl)

/-- A frame is closed again, whether or not its computation ended well. -/
theorem mirrors_inFrame {frame : List (Nat × Value)} {x : EvalM α} {y : EvalM β}
    (h : Mirrors (env.push frame) (env'.push frame) P x y) :
    Mirrors env env' P (inFrame frame x) (inFrame frame y) := by
  unfold Mirrors at h ⊢
  have hrun : ∀ {ε : Type} (z : EvalM ε) (e : Env),
      (inFrame frame z).run e = ((z.run (e.push frame)).1, (z.run (e.push frame)).2.pop) :=
    fun _ _ => rfl
  rw [hrun, hrun]
  generalize x.run (env.push frame) = run at h
  generalize y.run (env'.push frame) = run' at h
  cases h with
  | ok hab =>
      rw [Scope.pop_push, Scope.pop_push]
      exact .ok hab
  | error => exact .error
  | unbound => exact .unbound

end EvalM

open EvalM

/-- Equal values that depend on no binding. -/
def Kept (v w : Value) : Prop := v = w ∧ v.Settled

def KeptAll (vs ws : List Value) : Prop := vs = ws ∧ ∀ v ∈ vs, v.Settled

/-- Mirrored computations with equal results go through the sequence operators in lockstep. -/
def mirrorsLockstep (env env' : Env) : Lockstep where
  ends P x y := Mirrors env env' (fun a b => a = b ∧ P a) x y
  ends_pure h := mirrors_pure ⟨rfl, h⟩
  ends_throw := mirrors_throw
  ends_bind h hf := mirrors_bind h fun a _ ⟨hab, ha⟩ => hab ▸ hf a ha

/-! ## §4  Applying lambdas -/

/-- All that is put in is bound in the environment too. -/
def Env.Carries (env : Env) (σ : Nat → Option Value) : Prop :=
  ∀ id v, σ id = some v → env.get? id = some v ∧ v.Settled

/-- The same settled value, or a lambda and the one that carries bindings in force. -/
inductive SameOrCarried (env : Env) : Value → Value → Prop
  | same {v} (h : v.Settled) : SameOrCarried env v v
  | carried {e τ} (he : e.InPlace) (hτ : Env.Carries env τ) :
      SameOrCarried env (.lambda e) (.lambda (e.capture τ))

theorem Kept.sameOrCarried {env : Env} {v w : Value} (h : Kept v w) : SameOrCarried env v w := by
  obtain ⟨rfl, hv⟩ := h
  exact .same hv

theorem Env.Carries.captured {env : Env} {σ τ : Nat → Option Value}
    (h : Env.Carries env fun id => (σ id).or (τ id)) : Env.Carries env σ :=
  fun id v hv => h id v (by simp [hv])

/-- What is put in for a lambda's references, and the frame of its parameters. -/
theorem Env.Carries.push {env env' : Env} {τ : Nat → Option Value} {ps : List Parameter}
    {args : List Value} (h : Env.Carries env τ) (hargs : ∀ v ∈ args, v.Settled) :
    Env.Carries (env.push ((ps.map (·.id)).zip args)) fun id =>
      (Expr.hide ps τ id).or ((env'.push ((ps.map (·.id)).zip args)).innermost.get? id) := by
  intro id v hv
  dsimp only at hv
  rw [Scope.get?_innermost_push] at hv
  simp only [Scope.get?, Scope.push, List.find?_append]
  cases hfind : ((ps.map (·.id)).zip args).reverse.find? (·.1 == id) with
  | some b =>
      -- the frame binds the parameter, so nothing was put in for it
      have hb := List.mem_reverse.mp (List.mem_of_find?_eq_some hfind)
      obtain ⟨hid, harg⟩ := List.of_mem_zip hb
      obtain ⟨q, hq, hqid⟩ := List.mem_map.mp hid
      have hsame : b.1 = id := by simpa using List.find?_some hfind
      have hhide : Expr.hide ps τ id = none :=
        if_pos (List.any_eq_true.mpr ⟨q, hq, by simp [hqid, hsame]⟩)
      rw [hhide, hfind] at hv
      obtain rfl := Option.some.inj hv
      exact ⟨rfl, hargs _ harg⟩
  | none =>
      rw [hfind, Option.map_none, Option.or_none] at hv
      unfold Expr.hide at hv
      split at hv
      · cases hv
      · exact h id v hv

theorem lambdaParts?_capture (σ : Nat → Option Value) : ∀ e : Expr,
    (e.capture σ).lambdaParts? =
      e.lambdaParts?.map fun (ps, body, ty) => (ps, body.capture (Expr.hide ps σ), ty) := by
  intro e
  induction e using Expr.lambdaParts?.induct with
  | case1 ps body ty => rfl
  | case2 e ty ih => exact ih
  | case3 e hlambda hquote =>
      cases e using Expr.shapes with
      | lambda ps body t => exact absurd rfl (hlambda ps body t)
      | param p =>
          rw [Expr.capture]
          split <;> rfl
      | unary op e t =>
          cases op with
          | quote => exact absurd rfl (hquote e t)
          | _ => rfl
      | _ => rfl

theorem Expr.InPlace.body : ∀ {e : Expr} {ps : List Parameter} {body : Expr} {ty : Ty},
    e.InPlace → e.lambdaParts? = some (ps, body, ty) → body.InPlace ∧ ¬ body.PassesOpen
  | .lambda _ body _, _, _, _, he, h => by
      cases h
      have hbody : body ∈ body :: [] := List.mem_singleton_self body
      exact ⟨he.child hbody, he.here body hbody⟩
  | .unary .quote e _, _, _, _, he, h =>
      Expr.InPlace.body (e := e) (he.child (by simp [Expr.children])) h

/-- The values of an expression in the two evaluations. -/
def Passed (env : Env) (e : Expr) (v w : Value) : Prop :=
  SameOrCarried env v w ∧ (¬ e.PassesOpen → Kept v w)

theorem Kept.passed {env : Env} {e : Expr} {v w : Value} (h : Kept v w) : Passed env e v w :=
  ⟨h.sameOrCarried, fun _ => h⟩

section Apply

variable {self self' : Expr → EvalM Value} {env env' : Env} {σ τ : Nat → Option Value}
variable (hself : ∀ {e : Expr} {σ : Nat → Option Value} {env env' : Env}, e.InPlace →
  Env.Carries env (fun id => (σ id).or (env'.innermost.get? id)) →
    Mirrors env env' (Passed env e) (self e) (self' (e.capture σ)))

include hself in
theorem applyLambda_mirrors {e : Expr} {args : List Value} (he : e.InPlace)
    (hτ : Env.Carries env τ) (hargs : ∀ v ∈ args, v.Settled) :
    Mirrors env env' Kept (applyLambda self e args) (applyLambda self' (e.capture τ) args) := by
  unfold applyLambda
  rw [lambdaParts?_capture]
  cases hparts : e.lambdaParts? with
  | none => exact mirrors_throw
  | some parts =>
      obtain ⟨ps, body, ty⟩ := parts
      obtain ⟨hbody, hkept⟩ := he.body hparts
      apply mirrors_inFrame
      exact mirrors_mono (hself hbody (hτ.push hargs)) fun v w h => h.2 hkept

include hself in
theorem applyValue_mirrors {f f' : Value} (hf : SameOrCarried env f f') {args : List Value}
    (hargs : ∀ v ∈ args, v.Settled) :
    Mirrors env env' Kept (applyValue self f args) (applyValue self' f' args) := by
  cases hf with
  | carried he hτ => exact applyLambda_mirrors hself he hτ hargs
  | same hv =>
      cases f with
      | lambda e =>
          obtain ⟨-, he⟩ := hv e (List.mem_singleton_self e)
          -- a closed lambda carries nothing
          have hnothing : Env.Carries env fun _ => none := fun _ _ h => by cases h
          have hcapture : e.capture (fun _ => none) = e := Expr.capture_eq_self e fun _ _ => rfl
          have happlied : Mirrors env env' Kept (applyLambda self e args)
              (applyLambda self' (e.capture fun _ => none) args) :=
            applyLambda_mirrors hself he hnothing hargs
          rwa [hcapture] at happlied
      | _ => exact mirrors_throw

include hself in
theorem sequenceOperator_mirrors {name : String} {items : List Value} {arg? arg?' : Option Value}
    (harg : Option.Rel (SameOrCarried env) arg? arg?') (hcontains : name = "Contains" → arg? = arg?')
    (hitems : ∀ v ∈ items, v.Settled) :
    Mirrors env env' Kept (sequenceOperator self name items arg?)
      (sequenceOperator self' name items arg?') := by
  have hcount : arg?.bind Value.asInt64? = arg?'.bind Value.asInt64? := by
    cases harg with
    | none => rfl
    | some h =>
        cases h with
        | same => rfl
        | carried => rfl
  have happlies : Option.Rel
      ((mirrorsLockstep env env').Applies self self' Value.Settled Value.Settled) arg? arg?' := by
    cases harg with
    | none => exact .none
    | some h =>
        refine .some fun item hitem => ?_
        exact applyValue_mirrors hself h (by simpa using hitem)
  have hends := (mirrorsLockstep env env').ends_sequenceOperator happlies hcount
    (fun hname => by rw [hcontains hname]) hitems
  exact mirrors_mono hends fun v w h => ⟨h.1, Value.settled_of_operatorResult h.2⟩

include hself in
theorem methodValue_mirrors {m : Method} {receiver? : Option Value} {vs ws : List Value}
    (hvs : List.Forall₂ (SameOrCarried env) vs ws) (hkept : ¬ m.Applies → vs = ws) :
    Mirrors env env' Kept (methodValue self m receiver? vs) (methodValue self' m receiver? ws) := by
  unfold methodValue
  cases hsequence : m.declaring == "Enumerable" || m.declaring == "Queryable" with
  | true =>
      simp only [if_true]
      cases hvs with
      | nil => exact mirrors_throw
      | @cons v w vs ws hv hvs =>
          cases hv with
          | carried => exact mirrors_throw
          | same hv =>
              cases v with
              | list items =>
                  refine sequenceOperator_mirrors hself ?_ ?_ (Value.settled_list.mp hv)
                  · cases hvs with
                    | nil => exact .none
                    | cons h _ => exact .some h
                  · intro hname
                    have hsame := hkept fun happlies => happlies.2 hname
                    rw [(List.cons.inj hsame).2]
              | null => exact mirrors_throw
              | _ => exact mirrors_throw
  | false =>
      have hnot : ¬ m.Applies := by
        rintro ⟨h | h, -⟩ <;> simp [h] at hsequence
      rw [hkept hnot]
      simp only [Bool.false_eq_true, if_false]
      split
      · exact mirrors_throw
      · split
        · exact mirrors_ofExcept fun v h => ⟨rfl, Value.settled_of_isData (textMethod_isData h)⟩
        · exact mirrors_ofExcept fun v h => ⟨rfl, Value.settled_of_isData (objectMethod_isData h)⟩
        · exact mirrors_ofExcept fun v h => ⟨rfl, Value.settled_of_isData (objectMethod_isData h)⟩
        · exact mirrors_throw
      · exact mirrors_throw

/-! ## §5  Nodes -/

variable (hσ : Env.Carries env fun id => (σ id).or (env'.innermost.get? id))

include hself hσ in
theorem kept_mirrors {e : Expr} (he : e.InPlace) (hkept : ¬ e.PassesOpen) :
    Mirrors env env' Kept (self e) (self' (e.capture σ)) :=
  mirrors_mono (hself he hσ) fun _ _ h => h.2 hkept

include hself hσ in
theorem arguments_mirrors : ∀ {args : List Expr}, (∀ e ∈ args, e.InPlace) →
    Mirrors env env'
      (fun vs ws => List.Forall₂ (SameOrCarried env) vs ws ∧
        ((∀ e ∈ args, ¬ e.PassesOpen) → KeptAll vs ws))
      (args.mapM self) ((args.map (Expr.capture σ)).mapM self')
  | [], _ => mirrors_pure ⟨.nil, fun _ => ⟨rfl, by simp⟩⟩
  | arg :: args, hargs => by
      rw [List.map_cons, List.mapM_cons, List.mapM_cons]
      refine mirrors_bind (hself (hargs arg List.mem_cons_self) hσ) fun v w hv => ?_
      refine mirrors_bind (arguments_mirrors fun e he => hargs e (List.mem_cons_of_mem _ he)) ?_
      rintro vs ws ⟨hall, hkept⟩
      refine mirrors_pure ⟨.cons hv.1 hall, fun h => ?_⟩
      obtain ⟨rfl, hsettled⟩ := hv.2 (h arg List.mem_cons_self)
      obtain ⟨rfl, hrest⟩ := hkept fun e he => h e (List.mem_cons_of_mem _ he)
      exact ⟨rfl, List.forall_mem_cons.mpr ⟨hsettled, hrest⟩⟩

include hself hσ in
theorem initValues_mirrors : ∀ {inits : List (String × Expr)} {done : List (String × Value)},
    (∀ i ∈ inits, i.2.InPlace ∧ ¬ i.2.PassesOpen) → (∀ f ∈ done, f.2.Settled) →
      Mirrors env env' (fun fs gs => fs = gs ∧ ∀ f ∈ fs, f.2.Settled)
        (Registry.initValues self inits done)
        (Registry.initValues self' (inits.map fun i => (i.1, i.2.capture σ)) done)
  | [], _, _, hdone => mirrors_pure ⟨rfl, hdone⟩
  | (name, e) :: inits, done, hinits, hdone => by
      obtain ⟨he, hkept⟩ := hinits _ List.mem_cons_self
      refine mirrors_bind (kept_mirrors hself hσ he hkept) ?_
      rintro v _ ⟨rfl, hv⟩
      refine initValues_mirrors (fun i hi => hinits i (List.mem_cons_of_mem _ hi)) fun f hf => ?_
      rcases Value.mem_putField hf with hf | rfl
      · exact hdone f hf
      · exact hv

/-- A conversion does not look into a lambda. -/
theorem castValue_lambda (r : Registry) (s t : Ty) :
    (∀ e, r.castValue (.lambda e) s t = .ok (.lambda e)) ∨
      ∃ error, ∀ e, r.castValue (.lambda e) s t = .error error := by
  have hliteral : ∀ l, (∀ e, r.toLiteral? (r.stripNullable s) l (.lambda e) = some (.lambda e)) ∨
      ∀ e, r.toLiteral? (r.stripNullable s) l (.lambda e) = none := by
    intro l
    cases l <;> first | exact .inl fun _ => rfl | exact .inr fun _ => rfl
  simp only [Registry.castValue, Value.isNull, Bool.false_eq_true, if_false]
  cases r.variants? (r.stripNullable t) with
  | some variants => exact .inr ⟨.badConversion "<lambda>" (r.tyText t), fun _ => rfl⟩
  | none =>
      cases r.literal? (r.stripNullable t) with
      | none => exact .inl fun _ => rfl
      | some l =>
          rcases hliteral l with h | h
          · exact .inl fun e => by simp only [h]
          · exact .inr ⟨.badConversion "<lambda>" (r.tyText t), fun e => by simp only [h, Value.text]⟩

theorem castValue_mirrors {r : Registry} {e : Expr} {v w : Value} {s t : Ty}
    (h : Passed env e v w) :
    Mirrors env env' (Passed env e) (EvalM.ofExcept (r.castValue v s t))
      (EvalM.ofExcept (r.castValue w s t)) := by
  obtain ⟨hsame, hkept⟩ := h
  cases hsame with
  | same hv => exact mirrors_ofExcept fun u hu => Kept.passed ⟨rfl, hv.castValue hu⟩
  | carried he hτ =>
      rcases castValue_lambda r s t with h | ⟨error, h⟩
      · rw [h, h]
        exact mirrors_pure ⟨.carried he hτ, hkept⟩
      · rw [h, h]
        exact mirrors_throw

theorem isInstance_passed {r : Registry} {v w : Value} {s t : Ty} (h : SameOrCarried env v w) :
    r.isInstance v s t = r.isInstance w s t := by
  cases h with
  | same => rfl
  | carried => rfl

include hself hσ in
theorem unaryValue_mirrors {r : Registry} {op : UnaryOp} {operand : Expr} {ty : Ty}
    (he : (Expr.unary op operand ty).InPlace) :
    Mirrors env env' (Passed env (.unary op operand ty)) (r.unaryValue self op operand ty)
      (r.unaryValue self' op (operand.capture σ) ty) := by
  have hoperand : operand.InPlace := he.child (by simp [Expr.children])
  have happlies := he.here
  have hvalue := hself hoperand hσ
  -- what the operand passes on is passed on by quotes and conversions
  have hpass : (op = .quote ∨ op.isConversion = true) → ∀ v w,
      Passed env operand v w → Passed env (.unary op operand ty) v w :=
    fun hop v w h => ⟨h.1, fun hnot => h.2 fun hopen => hnot ⟨hop, hopen⟩⟩
  have hkept : op ≠ .quote → op.isConversion = false → Mirrors env env' Kept (self operand)
      (self' (operand.capture σ)) := by
    intro hquote hconversion
    refine kept_mirrors hself hσ hoperand ?_
    rcases happlies with h | h | h
    · exact absurd h hquote
    · simp [hconversion] at h
    · exact h
  cases op with
  | quote => exact mirrors_bind hvalue fun v w h => mirrors_pure (hpass (.inl rfl) v w h)
  | convert | convertChecked =>
      refine mirrors_bind hvalue fun v w h => ?_
      dsimp only
      rw [Expr.ty_capture]
      exact castValue_mirrors (hpass (.inr rfl) v w h)
  | typeAs =>
      refine mirrors_bind hvalue fun v w h => ?_
      dsimp only
      rw [Expr.ty_capture, isInstance_passed h.1]
      split
      · exact mirrors_pure (hpass (.inr rfl) v w h)
      · exact mirrors_pure (Kept.passed ⟨rfl, Value.settled_of_isData rfl⟩)
  | not =>
      refine mirrors_bind (hkept (by simp) rfl) ?_
      rintro v _ ⟨rfl, -⟩
      exact mirrors_ofExcept fun w h => Kept.passed ⟨rfl, Value.settled_of_isData (negation_isData h)⟩
  | negate =>
      refine mirrors_bind (hkept (by simp) rfl) ?_
      rintro v _ ⟨rfl, -⟩
      exact mirrors_ofExcept fun w h => Kept.passed ⟨rfl, Value.settled_of_isData (negated_isData h)⟩
  | arrayLength =>
      refine mirrors_bind (hkept (by simp) rfl) ?_
      rintro v _ ⟨rfl, -⟩
      dsimp only
      split
      · exact mirrors_pure (Kept.passed ⟨rfl, Value.settled_of_isData rfl⟩)
      · exact mirrors_throw

include hself hσ in
theorem shortCircuit_mirrors {op : BinaryOp} {absorbing : Bool} {left right : Expr}
    (hl : left.InPlace) (hr : right.InPlace) (hlkept : ¬ left.PassesOpen)
    (hrkept : ¬ right.PassesOpen) :
    Mirrors env env' Kept (Registry.shortCircuit self op absorbing left right)
      (Registry.shortCircuit self' op absorbing (left.capture σ) (right.capture σ)) := by
  refine mirrors_bind (kept_mirrors hself hσ hl hlkept) ?_
  rintro v _ ⟨rfl, hv⟩
  split
  · exact mirrors_pure ⟨rfl, hv⟩
  · refine mirrors_bind (kept_mirrors hself hσ hr hrkept) ?_
    rintro w _ ⟨rfl, -⟩
    exact mirrors_ofExcept fun x h => ⟨rfl, Value.settled_of_isData (connective_isData h)⟩

include hself hσ in
theorem binaryValue_mirrors {r : Registry} {op : BinaryOp} {left right : Expr}
    {conversion : Option Expr} {ty : Ty}
    (he : (Expr.binary op left right conversion ty).InPlace) :
    Mirrors env env' (Passed env (.binary op left right conversion ty))
      (r.binaryValue self op left right conversion ty)
      (r.binaryValue self' op (left.capture σ) (right.capture σ)
        (conversion.map (Expr.capture σ)) ty) := by
  have hl : left.InPlace := he.child (by simp [Expr.children])
  have hr : right.InPlace := he.child (by simp [Expr.children])
  obtain ⟨hoperands, hconversion⟩ := he.here
  by_cases hop : op = .coalesce
  · subst hop
    cases conversion with
    | none =>
        refine mirrors_bind (hself hl hσ) fun v w hv => ?_
        have hnull : w.isNull = v.isNull := by
          cases hv.1 with
          | same => rfl
          | carried => rfl
        dsimp only
        rw [hnull]
        split
        · refine mirrors_mono (hself hr hσ) fun v w h => ?_
          exact ⟨h.1, fun hnot => h.2 fun hopen => hnot ⟨rfl, .inr hopen⟩⟩
        · exact mirrors_pure ⟨hv.1, fun hnot => hv.2 fun hopen => hnot ⟨rfl, .inl ⟨rfl, hopen⟩⟩⟩
    | some c =>
        have hlkept : ¬ left.PassesOpen := hconversion.resolve_left (by simp)
        refine mirrors_bind (kept_mirrors hself hσ hl hlkept) ?_
        rintro v _ ⟨rfl, hv⟩
        dsimp only
        split
        · refine mirrors_mono (hself hr hσ) fun v w h => ?_
          exact ⟨h.1, fun hnot => h.2 fun hopen => hnot ⟨rfl, .inr hopen⟩⟩
        · refine mirrors_mono (applyLambda_mirrors hself (he.child (by simp [Expr.children]))
            hσ.captured (by simpa using hv)) fun _ _ => Kept.passed
  · obtain ⟨hlkept, hrkept⟩ := hoperands.resolve_left hop
    have hstrict : Mirrors env env' (Passed env (.binary op left right conversion ty))
        (do let v ← self left
            let w ← self right
            EvalM.ofExcept (operatorValue (r.isIntegral ty) op v w))
        (do let v ← self' (left.capture σ)
            let w ← self' (right.capture σ)
            EvalM.ofExcept (operatorValue (r.isIntegral ty) op v w)) := by
      refine mirrors_bind (kept_mirrors hself hσ hl hlkept) ?_
      rintro v _ ⟨rfl, hv⟩
      refine mirrors_bind (kept_mirrors hself hσ hr hrkept) ?_
      rintro w _ ⟨rfl, -⟩
      exact mirrors_ofExcept fun x h => Kept.passed ⟨rfl, hv.operatorValue h⟩
    have hcircuit : ∀ absorbing, Mirrors env env' (Passed env (.binary op left right conversion ty))
        (Registry.shortCircuit self op absorbing left right)
        (Registry.shortCircuit self' op absorbing (left.capture σ) (right.capture σ)) :=
      fun _ => mirrors_mono (shortCircuit_mirrors hself hσ hl hr hlkept hrkept) fun _ _ => Kept.passed
    cases op with
    | coalesce => exact absurd rfl hop
    | andAlso => exact hcircuit false
    | orElse => exact hcircuit true
    | _ => exact hstrict

include hself hσ in
/-- A node that is neither a reference nor a lambda. -/
theorem evalNode_mirrors {r : Registry} {e : Expr} (he : e.InPlace) (hplain : e.Plain) :
    Mirrors env env' (Passed env e) (r.evalNode self e) (r.evalNode self' (e.capture σ)) := by
  have happlies := he.here
  have hchild : ∀ c ∈ e.children, c.InPlace := fun c hc => he.child hc
  rw [Expr.capture_plain σ hplain]
  cases e using Expr.shapes with
  | param | lambda => exact hplain.elim
  | const v ty => exact mirrors_pure (Kept.passed ⟨rfl, Value.settled_of_isData happlies⟩)
  | default ty =>
      exact mirrors_pure (Kept.passed ⟨rfl, Value.settled_of_isData (Registry.defaultOf_isData ty)⟩)
  | member target m =>
      have hkept : ¬ target.PassesOpen := happlies target (by simp [Expr.children])
      refine mirrors_bind (kept_mirrors hself hσ (hchild target (by simp [Expr.children])) hkept) ?_
      rintro v _ ⟨rfl, hv⟩
      rw [Expr.ty_capture]
      exact mirrors_ofExcept fun w h => Kept.passed ⟨rfl, hv.valueMember h⟩
  | unary op operand ty => exact unaryValue_mirrors hself hσ he
  | binary op left right ty => exact binaryValue_mirrors hself hσ he
  | coalesce op left right c ty => exact binaryValue_mirrors hself hσ he
  | cond test whenTrue whenFalse ty =>
      refine mirrors_bind (kept_mirrors hself hσ (hchild test (by simp [Expr.children])) happlies) ?_
      rintro v _ ⟨rfl, -⟩
      cases v with
      | bool b =>
          cases b with
          | true =>
              refine mirrors_mono (hself (hchild whenTrue (by simp [Expr.children])) hσ) fun v w h => ?_
              exact ⟨h.1, fun hnot => h.2 fun hopen => hnot (.inl hopen)⟩
          | false =>
              refine mirrors_mono (hself (hchild whenFalse (by simp [Expr.children])) hσ) fun v w h => ?_
              exact ⟨h.1, fun hnot => h.2 fun hopen => hnot (.inr hopen)⟩
      | _ => exact mirrors_throw
  | callStatic m args =>
      have hplaces : ∀ e ∈ args, e.InPlace := fun e hmem => hchild e (by simp [Expr.children, hmem])
      have hargs := arguments_mirrors hself hσ hplaces
      refine mirrors_bind hargs fun vs ws h => mirrors_mono ?_ fun _ _ => Kept.passed
      exact methodValue_mirrors hself h.1 fun hnot => (h.2 (happlies.2.resolve_left hnot)).1
  | call target m args =>
      have hkept : ¬ target.PassesOpen := happlies.1 target (List.mem_singleton_self target)
      have hplaces : ∀ e ∈ args, e.InPlace := fun e hmem => hchild e (by simp [Expr.children, hmem])
      have hargs := arguments_mirrors hself hσ hplaces
      refine mirrors_bind (kept_mirrors hself hσ (hchild target (by simp [Expr.children])) hkept) ?_
      rintro v _ ⟨rfl, -⟩
      refine mirrors_bind hargs fun vs ws h => mirrors_mono ?_ fun _ _ => Kept.passed
      exact methodValue_mirrors hself h.1 fun hnot => (h.2 (happlies.2.resolve_left hnot)).1
  | new ty inits =>
      have hinits : ∀ i ∈ inits, i.2.InPlace ∧ ¬ i.2.PassesOpen := fun i hi =>
        ⟨hchild i.2 (List.mem_map_of_mem hi), happlies i.2 (List.mem_map_of_mem hi)⟩
      refine mirrors_map (initValues_mirrors hself hσ hinits (by simp)) ?_
      rintro fs _ ⟨rfl, hfs⟩
      exact Kept.passed ⟨rfl, Value.settled_record.mpr hfs⟩
  | newArray ty items =>
      refine mirrors_map (arguments_mirrors hself hσ hchild) fun vs ws h => ?_
      obtain ⟨rfl, hvs⟩ := h.2 happlies
      exact Kept.passed ⟨rfl, Value.settled_list.mpr hvs⟩
  | typeIs operand tested ty =>
      have hkept : ¬ operand.PassesOpen := happlies operand (by simp [Expr.children])
      refine mirrors_bind (kept_mirrors hself hσ (hchild operand (by simp [Expr.children])) hkept) ?_
      rintro v _ ⟨rfl, -⟩
      rw [Expr.ty_capture]
      exact mirrors_pure (Kept.passed ⟨rfl, Value.settled_of_isData rfl⟩)
  | invoke f args ty =>
      have hplaces : ∀ e ∈ args, e.InPlace := fun e hmem => hchild e (by simp [Expr.children, hmem])
      have hargs := arguments_mirrors hself hσ hplaces
      refine mirrors_bind (hself (hchild f (by simp [Expr.children])) hσ) fun v w hf => ?_
      refine mirrors_bind hargs fun vs ws h => ?_
      obtain ⟨rfl, hvs⟩ := h.2 happlies
      exact mirrors_mono (applyValue_mirrors hself hf.1 hvs) fun _ _ => Kept.passed

end Apply

/-! ## §6  Expressions -/

namespace Registry

variable {r : Registry}

theorem param_mirrors {n : Nat} {p : Parameter} {σ : Nat → Option Value} {env env' : Env}
    (hσ : Env.Carries env fun id => (σ id).or (env'.innermost.get? id)) :
    Mirrors env env' (Passed env (.param p)) (r.eval (n + 1) (.param p))
      (r.evalLexically (n + 1) ((Expr.param p).capture σ)) := by
  have hrun : ∀ v, env.get? p.id = some v → (r.eval (n + 1) (.param p)).run env = (.ok v, env) := by
    intro v hv
    show (match env.get? p.id with
      | some v => (pure v : EvalM Value)
      | none => throw (EvalError.unboundParameter p.name)).run env = _
    rw [hv]
    rfl
  unfold Mirrors
  cases hput : σ p.id with
  | some v =>
      obtain ⟨hv, hsettled⟩ := hσ p.id v (by simp [hput])
      rw [Expr.capture, hput, hrun v hv]
      exact .ok (Kept.passed ⟨rfl, hsettled⟩)
  | none =>
      rw [Expr.capture, hput]
      show Mirrored _ _ _ _ ((match env'.innermost.get? p.id with
        | some v => (pure v : EvalM Value)
        | none => throw (EvalError.unboundParameter p.name)).run env')
      cases hget : env'.innermost.get? p.id with
      | none => exact .unbound
      | some v =>
          obtain ⟨hv, hsettled⟩ := hσ p.id v (by simp [hput, hget])
          rw [hrun v hv]
          exact .ok (Kept.passed ⟨rfl, hsettled⟩)

theorem lambda_mirrors {n : Nat} {ps : List Parameter} {body : Expr} {ty : Ty}
    {σ : Nat → Option Value} {env env' : Env} (he : (Expr.lambda ps body ty).InPlace)
    (hσ : Env.Carries env fun id => (σ id).or (env'.innermost.get? id)) :
    Mirrors env env' (Passed env (.lambda ps body ty)) (r.eval (n + 1) (.lambda ps body ty))
      (r.evalLexically (n + 1) ((Expr.lambda ps body ty).capture σ)) := by
  show Mirrored _ _ _ (.ok (Value.lambda (.lambda ps body ty)), env)
    (.ok (Value.lambda (((Expr.lambda ps body ty).capture σ).capture env'.innermost.get?)), env')
  rw [Expr.capture_capture]
  refine .ok ⟨.carried he hσ, fun hopen => ?_⟩
  have hclosed : (Expr.lambda ps body ty).Closed := not_not.mp hopen
  rw [Expr.capture_eq_self _ fun p hp => absurd hp (hclosed p)]
  refine ⟨rfl, fun x hx => ?_⟩
  obtain rfl := List.mem_singleton.mp hx
  exact ⟨hclosed, he⟩

/-- Both evaluations follow to the same depth, so that they are refused alike. -/
theorem evalLexically_mirrors : ∀ (n : Nat) {e : Expr} {σ : Nat → Option Value} {env env' : Env},
    e.InPlace → Env.Carries env (fun id => (σ id).or (env'.innermost.get? id)) →
      Mirrors env env' (Passed env e) (r.eval n e) (r.evalLexically n (e.capture σ))
  | 0, e, σ, _, _, _, _ => by
      rw [evalLexically]
      exact mirrors_throw
  | n + 1, e, σ, env, env', he, hσ => by
      by_cases hplain : e.Plain
      · have hplain' : (e.capture σ).Plain := by
          rw [Expr.capture_plain σ hplain]
          exact Expr.plain_mapChildren hplain
        have hlexical : r.evalLexically (n + 1) (e.capture σ) =
            r.evalNode (r.evalLexically n) (e.capture σ) := by
          rw [evalLexically]
          · exact hplain'.not_param
          · exact hplain'.not_lambda
        rw [eval, hlexical]
        exact evalNode_mirrors (evalLexically_mirrors n) hσ he hplain
      · cases e with
        | param p => exact param_mirrors hσ
        | lambda ps body ty => exact lambda_mirrors he hσ
        | _ => exact absurd trivial hplain

/-- Evaluation is lexically scoped where open lambdas are applied in place, as long as no parameter
is unbound. -/
theorem evaluate_eq_evaluateLexically {e : Expr} (hclosed : e.Closed) (he : e.InPlace)
    (hbound : ∀ name, r.evaluateLexically e ≠ .error (.unboundParameter name)) :
    r.evaluate e = r.evaluateLexically e := by
  have hnothing : Env.Carries (.empty : Env) fun id =>
      (none : Option Value).or ((Scope.innermost (.empty : Env)).get? id) := by
    intro id v h
    cases h
  have hmirrors := evalLexically_mirrors (r := r) evalDepth he hnothing
  rw [Expr.capture_eq_self e fun _ _ => rfl] at hmirrors
  unfold Mirrors at hmirrors
  unfold evaluateLexically at hbound
  unfold evaluate evaluateLexically
  show ((r.eval evalDepth e).run .empty).1 = ((r.evalLexically evalDepth e).run .empty).1
  generalize (r.eval evalDepth e).run .empty = run at hmirrors
  have hbound : ∀ name, ((r.evalLexically evalDepth e).run .empty).1 ≠
      .error (.unboundParameter name) := hbound
  generalize (r.evalLexically evalDepth e).run .empty = run' at hmirrors hbound
  cases hmirrors with
  | ok h => rw [(h.2 hclosed.not_passesOpen).1]
  | error => rfl
  | unbound => exact absurd rfl (hbound _)

/-! ## §7  Where the two differ -/

namespace Scoping

def x : Parameter := ⟨0, "x", .int32⟩

def y : Parameter := ⟨1, "y", .int32⟩

def z : Parameter := ⟨2, "z", .int32⟩

def number (n : Int) : Expr := .const (.int n) .int32

/-- `[1, 5].Count(y => y > x)` -/
def countAbove : Expr :=
  .call none
    ⟨⟨"Enumerable", "Count", true, 1, [.seq .enumerable (.param 0), .func [.param 0] .boolean], .int32⟩,
      [.int32], [.seq .enumerable .int32, .func [.int32] .boolean], .int32⟩
    [.newArray (.array .int32) [number 1, number 5],
      .lambda [y] (.binary .greaterThan (.param y) (.param x) none .boolean) (.func [.int32] .boolean)]

/-- `new { Same = z => z }.Same` -/
def stored : Expr :=
  .member
    (.new (.anonymous [⟨"Same", .func [.int32] .int32⟩])
      [("Same", .lambda [z] (.param z) (.func [.int32] .int32))])
    ⟨"Same", .func [.int32] .int32⟩

/-- `(x => new { Same = z => z }.Same([1, 5].Count(y => y > x)))(3)` -/
def counted : Expr :=
  .invoke (.lambda [x] (.invoke stored [countAbove] .int32) (.func [.int32] .int32)) [number 3] .int32

/-- `(x => y => x + y)(1)(2)` -/
def curried : Expr :=
  .invoke
    (.invoke
      (.lambda [x]
        (.lambda [y] (.binary .add (.param x) (.param y) none .int32) (.func [.int32] .int32))
        (.func [.int32] (.func [.int32] .int32)))
      [number 1] (.func [.int32] .int32))
    [number 2] .int32

def a : Parameter := ⟨0, "a", .object⟩

def b : Parameter := ⟨1, "b", .int32⟩

/-- `(a, b) => a == null ? b : ((Func<Object, Int32>) a)(null)` -/
def retry : Expr :=
  .lambda [a, b]
    (.cond (.binary .equal (.param a) (.const .null .object) none .boolean) (.param b)
      (.invoke (.unary .convert (.param a) (.func [.object] .int32)) [.const .null .object] .int32)
      .int32)
    (.func [.object, .int32] .int32)

def f : Parameter := ⟨2, "f", .func [.object, .int32] .int32⟩

/-- `(f => f(f, 5))` applied to that lambda, which is applied once more without its second argument. -/
def missing : Expr :=
  .invoke
    (.lambda [f] (.invoke (.param f) [.param f, number 5] .int32)
      (.func [.func [.object, .int32] .int32] .int32))
    [retry] .int32

end Scoping

open Scoping in
theorem evaluate_eq_evaluateLexically_counted :
    Registry.standard.evaluate counted = Registry.standard.evaluateLexically counted ∧
      Registry.standard.evaluateLexically counted = .ok (.int 1) := by
  have hvalue : Registry.standard.evaluateLexically counted = .ok (.int 1) := rfl
  have hclosed : counted.Closed := by decide
  have hplace : counted.InPlace := by decide
  refine ⟨evaluate_eq_evaluateLexically hclosed hplace fun name h => ?_, hvalue⟩
  rw [hvalue] at h
  cases h

/-- A well-typed expression that stands alone: nothing is free in it, no constant holds a lambda and
no two lambdas bind one parameter. -/
structure Standalone (r : Registry) (e : Expr) : Prop where
  typed : r.WellTyped e
  closed : e.Closed
  data : ∀ v t, .const v t ∈ e.nodes → v.isData = true
  apart : (e.nodes.flatMap Expr.binds).Nodup

namespace Scoping

theorem curried_standalone : Registry.standard.Standalone curried where
  typed := by
    intro n hn
    simp only [curried, number, Expr.nodes, Expr.nodesAll, List.cons_append, List.nil_append,
      List.append_nil, List.mem_cons, List.not_mem_nil, or_false] at hn
    rcases hn with rfl | rfl | rfl | rfl | rfl | rfl | rfl | rfl | rfl
    · rfl
    · rfl
    · exact .inl rfl
    · exact .inl rfl
    · rfl
    all_goals trivial
  closed := by decide
  data v t h := by
    simp [curried, number, Expr.nodes, Expr.nodesAll] at h
    rcases h with ⟨rfl, -⟩ | ⟨rfl, -⟩ <;> rfl
  apart := by decide

theorem missing_standalone : Registry.standard.Standalone missing where
  typed := by
    intro n hn
    simp only [missing, retry, number, Expr.nodes, Expr.nodesAll, List.cons_append, List.nil_append,
      List.append_nil, List.mem_cons, List.not_mem_nil, or_false] at hn
    rcases hn with rfl | rfl | rfl | rfl | rfl | rfl | rfl | rfl | rfl | rfl | rfl | rfl | rfl | rfl |
      rfl | rfl
    all_goals first | rfl | trivial | exact .inl rfl
  closed := by decide
  data v t h := by
    simp [missing, retry, number, Expr.nodes, Expr.nodesAll] at h
    rcases h with ⟨rfl, -⟩ | ⟨rfl, -⟩ <;> rfl
  apart := by decide

end Scoping

open Scoping in
/-- A lambda that is returned is applied without the bindings it was made under; and a parameter
without an argument is looked up among those of the caller. -/
theorem evaluate_eq_evaluateLexically_fails :
    (¬ ∀ (r : Registry) (e : Expr), r.Standalone e → r.evaluate e = r.evaluateLexically e) ∧
      ¬ ∀ (r : Registry) (e : Expr), r.Standalone e → e.InPlace →
        r.evaluate e = r.evaluateLexically e := by
  constructor
  · intro h
    have hsame := h .standard curried curried_standalone
    have hdynamic : Registry.standard.evaluate curried = .error (.unboundParameter "x") := rfl
    have hlexical : Registry.standard.evaluateLexically curried = .ok (.int 3) := rfl
    rw [hdynamic, hlexical] at hsame
    cases hsame
  · intro h
    have hsame := h .standard missing missing_standalone (by decide)
    have hdynamic : Registry.standard.evaluate missing = .ok (.int 5) := rfl
    have hlexical : Registry.standard.evaluateLexically missing = .error (.unboundParameter "b") := rfl
    rw [hdynamic, hlexical] at hsame
    cases hsame

end Registry

end Recast
