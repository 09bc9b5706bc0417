import Recast.Proofs.EvalAgreement
import Recast.Proofs.LexicalScope
import Recast.Proofs.OperatorResults

/-! # Evaluation keeps types

An admissible expression that ends with a value ends with one of its static type,
whatever values of their types the parameters that it names are bound to, and leaves
the bindings as it found them.  The constructors alone do not ensure this: what they
take on trust can be used to pass off a value of one type as one of another.

- `EvalM.EndsIn` — what holds of the value that a computation ends with, if it ends
  with one.
- `Registry.evalNode_endsIn` — one node, given the nodes below, from one lemma for
  each kind of node.
- `Registry.eval_conforms` — every expression.
- `Registry.LosesType` — well-typed expressions that end with a value of another type.
-/

namespace Recast

/-! ## §1  Computations that end with a value -/

namespace EvalM

/-- If the computation ends with a value, `P` holds of it, and the bindings are the same again. -/
def EndsIn {α : Type} (env : Env) (P : α → Prop) (x : EvalM α) : Prop :=
  ∀ a env', Returns x env a env' → P a ∧ env' = env

variable {α β : Type} {env : Env} {P : α → Prop} {Q : β → Prop} {x : EvalM α}

theorem endsIn_pure {a : α} (ha : P a) : EndsIn env P (pure a) := by
  intro b env' h
  obtain ⟨rfl, rfl⟩ := returns_pure.mp h
  exact ⟨ha, rfl⟩

theorem endsIn_throw {e : EvalError} : EndsIn env P (throw e) := fun _ _ h =>
  absurd h returns_throw

theorem endsIn_bind {f : α → EvalM β} (hx : EndsIn env P x) (hf : ∀ a, P a → EndsIn env Q (f a)) :
    EndsIn env Q (x >>= f) := by
  intro b env'' h
  obtain ⟨a, env', hreturns, hb⟩ := returns_bind.mp h
  obtain ⟨ha, rfl⟩ := hx a env' hreturns
  exact hf a ha b env'' hb

theorem endsIn_map {f : α → β} (hx : EndsIn env P x) (hf : ∀ a, P a → Q (f a)) :
    EndsIn env Q (f <$> x) := by
  rw [map_eq_pure_bind]
  exact endsIn_bind hx fun a ha => endsIn_pure (hf a ha)

theorem EndsIn.mono {P' : α → Prop} (hx : EndsIn env P x) (h : ∀ a, P a → P' a) :
    EndsIn env P' x := fun a env' ha => ⟨h a (hx a env' ha).1, (hx a env' ha).2⟩

theorem endsIn_ofExcept {e : Except EvalError α} (h : ∀ a, e = .ok a → P a) :
    EndsIn env P (ofExcept e) := by
  cases e with
  | ok a => exact endsIn_pure (h a rfl)
  | error e => exact endsIn_throw

theorem endsIn_inFrame {frame : List (Nat × Value)} (hx : EndsIn (env.push frame) P x) :
    EndsIn env P (inFrame frame x) := by
  intro a env' h
  obtain ⟨env'', hreturns, rfl⟩ := returns_inFrame.mp h
  obtain ⟨ha, rfl⟩ := hx a env'' hreturns
  exact ⟨ha, Scope.pop_push _ _⟩

/-- What one computation gives goes through the sequence operators. -/
def endsInLockstep (env : Env) : Lockstep where
  ends P x _ := EndsIn env P x
  ends_pure := endsIn_pure
  ends_throw := endsIn_throw
  ends_bind := endsIn_bind

end EvalM

open EvalM

/-! ## §2  Applying lambdas -/

namespace Registry

variable {r : Registry} {Γ : Nat → Option Ty}

/-- The parameters that have a type are bound to values of it. -/
def Binds (r : Registry) (Γ : Nat → Option Ty) (env : Env) : Prop :=
  ∀ id t v, Γ id = some t → env.get? id = some v → r.Conforms Γ v t

theorem binds_empty : r.Binds Γ .empty := by
  intro id t v _ h
  cases h

theorem Binds.push {env : Env} {frame : List (Nat × Value)} (h : r.Binds Γ env)
    (hframe : ∀ b ∈ frame, ∀ t, Γ b.1 = some t → r.Conforms Γ b.2 t) :
    r.Binds Γ (env.push frame) := by
  intro id t v ht hv
  simp only [Scope.get?, Scope.push, List.find?_append] at hv
  cases hfind : frame.reverse.find? (·.1 == id) with
  | some b =>
      rw [hfind] at hv
      obtain rfl := Option.some.inj hv
      obtain rfl : b.1 = id := by simpa using List.find?_some hfind
      exact hframe b (List.mem_reverse.mp (List.mem_of_find?_eq_some hfind)) t ht
  | none =>
      rw [hfind] at hv
      exact h id t v ht hv

theorem lambda_mem_nodes : ∀ {e : Expr} {ps : List Parameter} {body : Expr} {ty : Ty},
    e.lambdaParts? = some (ps, body, ty) → .lambda ps body ty ∈ e.nodes
  | .lambda _ _ _, _, _, _, h => by
      cases h
      exact Expr.mem_nodes_self _
  | .unary .quote e _, _, _, _, h =>
      Expr.nodes_subset_of_child (by simp [Expr.children]) (lambda_mem_nodes (e := e) h)

section Apply

variable {self : Expr → EvalM Value} {env : Env}
variable (hself : ∀ {e : Expr} {env : Env}, r.Admissible Γ e → r.Binds Γ env →
  EndsIn env (fun v => r.Conforms Γ v e.ty) (self e))

include hself in
/-- A lambda applied to values of the types of its parameters answers with one of the type of its
body. -/
theorem applyLambda_endsIn {e body : Expr} {ps : List Parameter} {ty : Ty} {args : List Value}
    (he : r.Admissible Γ e) (hparts : e.lambdaParts? = some (ps, body, ty)) (henv : r.Binds Γ env)
    (hargs : ∀ b ∈ ps.zip args, r.Conforms Γ b.2 b.1.ty) :
    EndsIn env (fun v => r.Conforms Γ v body.ty) (applyLambda self e args) := by
  have hlambda := he.mono (Expr.nodes_subset_of_mem (lambda_mem_nodes hparts))
  have hbody : r.Admissible Γ body := hlambda.child (by simp [Expr.children])
  unfold applyLambda
  rw [hparts]
  -- the frame binds each parameter to the argument of its place
  refine endsIn_inFrame (hself hbody (henv.push fun b hb t ht => ?_))
  rw [List.zip_map_left] at hb
  obtain ⟨⟨p, v⟩, hmem, rfl⟩ := List.mem_map.mp hb
  have hp : Γ p.id = some p.ty :=
    hlambda.params p (Expr.named_subset_parameters _ (List.of_mem_zip hmem).1)
  obtain rfl := Option.some.inj (hp.symm.trans ht)
  exact hargs _ hmem

include hself in
/-- A value of a delegate type, applied to values of the types that it takes, answers with one of
the type that it returns. -/
theorem applyValue_endsIn {f : Value} {t ret : Ty} {params : List Ty} {args : List Value}
    (hr : r.Nominal) (hf : r.Conforms Γ f t) (ht : r.signature? t = some (params, ret))
    (henv : r.Binds Γ env) (hargs : List.Forall₂ (fun v t => r.Conforms Γ v t) args params) :
    EndsIn env (fun v => r.Conforms Γ v ret) (applyValue self f args) := by
  rcases hf.of_isDelegate hr ht with rfl | ⟨e, ps, body, ty, rfl, hparts, rfl, hret, he⟩
  · exact endsIn_throw
  · have hzip : ∀ b ∈ ps.zip args, r.Conforms Γ b.2 b.1.ty := fun b hb =>
      (List.forall₂_iff_zip.mp (List.forall₂_map_right_iff.mp hargs).flip).2 hb
    exact (applyLambda_endsIn hself he hparts henv hzip).mono fun v hv => hv.fit hr hret

/-! ## §3  Methods -/

/-- The lambda after the sequence takes its items, quoted or not. -/
theorem answer?_signature (hr : r.Nominal) {d : MethodSig} {t : Ty} (typeArgs : List Ty)
    (h : d.answer? = some t) :
    ∃ p, d.params.tail = [p] ∧ r.signature? (r.substitute typeArgs p) =
      some ([r.substitute typeArgs (.param 0)], r.substitute typeArgs t) := by
  have hfunc : ∀ ps ret, r.isRedefined (.func ps ret) = false := fun _ _ => hr.fresh _ rfl
  have hquote : ∀ u, r.isRedefined (.expression u) = false := fun _ => hr.fresh _ rfl
  unfold MethodSig.answer? at h
  split at h
  · rename_i u t' hparams
    obtain rfl := Option.some.inj h
    refine ⟨_, by rw [hparams]; rfl, ?_⟩
    simp [substitute, substituteAll, signature?, hfunc]
  · rename_i u t' hparams
    obtain rfl := Option.some.inj h
    refine ⟨_, by rw [hparams]; rfl, ?_⟩
    simp [substitute, substituteAll, signature?, hfunc, hquote]
  · cases h

section Methods

variable {m : Method} {receiver? : Option Value} {args : List Value}

include hself in
/-- The lambda after the sequence answers for every item, whichever it is. -/
theorem applies_of_answer (hr : r.Nominal) (henv : r.Binds Γ env) {d : MethodSig}
    {typeArgs : List Ty} {f : Value} {p t : Ty} (hparams : d.params.tail = [p])
    (ht : d.answer? = some t) (hf : r.Conforms Γ f (r.substitute typeArgs p)) :
    (endsInLockstep env).Applies self self (r.IsItem Γ typeArgs) (r.IsAnswer Γ d typeArgs) f f := by
  obtain ⟨q, hq, hsig⟩ := answer?_signature hr typeArgs ht
  obtain rfl : q = p := by simpa [hq] using hparams
  intro item hitem
  refine (applyValue_endsIn hself hr hf hsig henv (.cons hitem .nil)).mono ?_
  intro v hv t' ht'
  obtain rfl := Option.some.inj (ht.symm.trans ht')
  exact hv

include hself in
theorem sequenceOperator_endsIn (hr : r.Nominal) (henv : r.Binds Γ env)
    (hm : r.closeMethod? m.definition m.typeArgs = some m)
    (hhonest : m.definition.sequenceHonest = true) {items : List Value}
    (hargs : List.Forall₂ (fun v t => r.Conforms Γ v t) (.list items :: args) m.params) :
    EndsIn env (fun v => r.Conforms Γ v m.ret) (sequenceOperator self m.name items args.head?) := by
  obtain ⟨hparams, hret⟩ := closeMethod?_eq_some hm
  have hresult : ∀ v, operatorResult (r.IsItem Γ m.typeArgs)
      (r.IsAnswer Γ m.definition m.typeArgs) m.name v → r.Conforms Γ v m.ret := by
    intro v hv
    rw [hret]
    exact operatorResult_conforms hr hhonest hv
  refine EndsIn.mono ?_ hresult
  have hshape := (Bool.and_eq_true _ _ |>.mp hhonest).1
  split at hshape
  · rename_i kind rest hdefinition
    have hfresh : ∀ u, r.isRedefined (.seq kind u) = false := fun u => hr.fresh _ rfl
    rw [hparams, hdefinition, List.map_cons, substitute, if_neg (by simp [hfresh])] at hargs
    obtain ⟨hlist, hrest⟩ := List.forall₂_cons.mp hargs
    have hitems : ∀ w ∈ items, r.IsItem Γ m.typeArgs w := fun w hw =>
      hlist.item (by simp [element?, hfresh]) hw
    have hlockstep : ∀ {arg? : Option Value},
        Option.Rel ((endsInLockstep env).Applies self self (r.IsItem Γ m.typeArgs)
          (r.IsAnswer Γ m.definition m.typeArgs)) arg? arg? →
          EndsIn env (operatorResult (r.IsItem Γ m.typeArgs)
            (r.IsAnswer Γ m.definition m.typeArgs) m.name)
            (sequenceOperator self m.name items arg?) :=
      fun harg => (endsInLockstep env).ends_sequenceOperator harg rfl (fun _ => rfl) hitems
    simp only [Bool.or_eq_true, List.isEmpty_iff] at hshape
    rcases hshape with (rfl | hanswer) | hplain
    · cases hrest
      exact hlockstep .none
    · obtain ⟨t, ht⟩ := Option.isSome_iff_exists.mp hanswer
      obtain ⟨p, htail, -⟩ := answer?_signature hr m.typeArgs ht
      obtain rfl : rest = [p] := by simpa [hdefinition] using htail
      cases hrest with
      | cons hf hnone =>
          cases hnone
          exact hlockstep (.some (applies_of_answer hself hr henv htail ht hf))
    · -- the argument is compared or counted, not applied
      simp only [List.contains_cons, List.contains_nil, Bool.or_false, Bool.or_eq_true,
        beq_iff_eq] at hplain
      unfold Method.name
      rcases hplain with hname | hname | hname <;> rw [hname]
      · exact endsIn_pure ⟨_, rfl⟩
      · exact endsIn_pure ⟨_, rfl, fun w hw => hitems w (List.mem_of_mem_take hw)⟩
      · exact endsIn_pure ⟨_, rfl, fun w hw => hitems w (List.mem_of_mem_drop hw)⟩
  · cases hshape

theorem sequenceOperator_of_not_mem {name : String} {items : List Value} {arg? : Option Value}
    (h : MethodSig.sequenceNames.contains name = false) :
    sequenceOperator self name items arg? = throw (.unsupportedMethod name) := by
  unfold sequenceOperator
  dsimp only
  split
  case h_16 => rfl
  all_goals cases h

include hself in
/-- An honest method ends with a value of the type that it returns. -/
theorem methodValue_endsIn (hr : r.Nominal) (henv : r.Binds Γ env)
    (hm : r.closeMethod? m.definition m.typeArgs = some m) (hhonest : m.definition.honest = true)
    (hargs : List.Forall₂ (fun v t => r.Conforms Γ v t) args m.params) :
    EndsIn env (fun v => r.Conforms Γ v m.ret) (methodValue self m receiver? args) := by
  unfold MethodSig.honest at hhonest
  unfold methodValue Method.declaring
  split
  · rename_i hdeclaring
    rw [if_pos hdeclaring] at hhonest
    split
    · rcases Bool.or_eq_true _ _ |>.mp hhonest with hunknown | hhonest
      · have hname : MethodSig.sequenceNames.contains m.name = false :=
          Bool.not_eq_true' _ |>.mp hunknown
        rw [sequenceOperator_of_not_mem hname]
        exact endsIn_throw
      · exact sequenceOperator_endsIn hself hr henv hm hhonest hargs
    · exact endsIn_throw
    · exact endsIn_throw
    · exact endsIn_throw
  · rename_i hdeclaring
    rw [if_neg hdeclaring] at hhonest
    split
    · exact endsIn_throw
    · split
      · rename_i hstring _
        rw [if_pos (by simp [hstring])] at hhonest
        exact endsIn_ofExcept fun v hv => textMethod_conforms hr hm hhonest hv
      · rename_i hstring _ _
        rw [if_pos (by simp [hstring])] at hhonest
        exact endsIn_ofExcept fun v hv => objectMethod_conforms hr hm hhonest hv
      · rename_i hobject _
        rw [if_pos (by simp [hobject])] at hhonest
        exact endsIn_ofExcept fun v hv => objectMethod_conforms hr hm hhonest hv
      · exact endsIn_throw
    · exact endsIn_throw

end Methods

/-! ## §4  Nodes -/

theorem Conforms.fit_all (hr : r.Nominal) {values : List Value} {args : List Expr}
    {params : List Ty} (hvalues : List.Forall₂ (fun v e => r.Conforms Γ v e.ty) values args)
    (hfit : List.Forall₂ (fun e t => r.Fits e.ty t) args params) :
    List.Forall₂ (fun v t => r.Conforms Γ v t) values params := by
  induction hvalues generalizing params with
  | nil =>
      cases hfit
      exact .nil
  | cons hv _ ih =>
      cases hfit with
      | cons h hrest => exact .cons (hv.fit hr h) (ih hrest)

theorem Conforms.assign_all (hr : r.Nominal) {values : List Value} {items : List Expr} {t : Ty}
    (hvalues : List.Forall₂ (fun v e => r.Conforms Γ v e.ty) values items)
    (hitems : ∀ e ∈ items, r.isAssignable e.ty t = true) : ∀ v ∈ values, r.Conforms Γ v t := by
  induction hvalues with
  | nil => simp
  | cons hv _ ih =>
      obtain ⟨hassign, hrest⟩ := List.forall_mem_cons.mp hitems
      exact List.forall_mem_cons.mpr ⟨hv.assign hr hassign, ih hrest⟩

include hself in
theorem arguments_endsIn (henv : r.Binds Γ env) {es : List Expr}
    (hes : ∀ e ∈ es, r.Admissible Γ e) :
    EndsIn env (fun vs => List.Forall₂ (fun v e => r.Conforms Γ v e.ty) vs es) (es.mapM self) := by
  induction es with
  | nil => exact endsIn_pure .nil
  | cons e es ih =>
      rw [List.mapM_cons]
      refine endsIn_bind (hself (hes e List.mem_cons_self) henv) fun v hv => ?_
      refine endsIn_bind (ih fun e he => hes e (List.mem_cons_of_mem _ he)) fun vs hvs => ?_
      exact endsIn_pure (.cons hv hvs)

/-- The value of a field is of the type of the member that it is read as, through the type of the
record or one that it derives from. -/
def FieldFits (r : Registry) (Γ : Nat → Option Ty) (t : Ty) (f : String × Value) : Prop :=
  ∀ base m, r.Derives t base → r.member? base f.1 = some m → r.Conforms Γ f.2 m.ty

include hself in
theorem initValues_endsIn (hr : r.Nominal) (henv : r.Binds Γ env) {t : Ty}
    {inits : List (String × Expr)} {done : List (String × Value)}
    (hinits : ∀ i ∈ inits, r.Admissible Γ i.2)
    (hfits : ∀ i ∈ inits, ∀ base m, r.Derives t base → r.member? base i.1 = some m →
      r.Fits i.2.ty m.ty)
    (hdone : ∀ f ∈ done, r.FieldFits Γ t f) :
    EndsIn env (fun fields => ∀ f ∈ fields, r.FieldFits Γ t f) (initValues self inits done) := by
  induction inits generalizing done with
  | nil => exact endsIn_pure hdone
  | cons i inits ih =>
      refine endsIn_bind (hself (hinits i List.mem_cons_self) henv) fun v hv => ?_
      refine ih (fun i hi => hinits i (List.mem_cons_of_mem _ hi))
        (fun i hi => hfits i (List.mem_cons_of_mem _ hi)) fun f hf => ?_
      rcases Value.mem_putField hf with hf | rfl
      · exact hdone f hf
      · intro base m hbase hm
        exact hv.fit hr (hfits i List.mem_cons_self base m hbase hm)

theorem checkArguments_fits {m : Method} : ∀ {i : Nat} {params : List Ty} {args : List Expr},
    params.length = args.length → r.checkArguments m i params args = .ok () →
      List.Forall₂ (fun e t => r.Fits e.ty t) args params
  | _, [], [], _, _ => .nil
  | i, p :: params, a :: args, hlength, h => by
      rw [checkArguments] at h
      split at h
      · rename_i hassign
        exact .cons (.single hassign) (checkArguments_fits (Nat.succ.inj hlength) h)
      · cases h

theorem mkCall_fits {target : Option Expr} {m : Method} {args : List Expr} {e : Expr}
    (h : r.mkCall target m args = .ok e) :
    List.Forall₂ (fun e t => r.Fits e.ty t) args m.params := by
  unfold mkCall at h
  split_ifs at h with _ hcount
  simp only [Checked.bind_eq_ok] at h
  obtain ⟨_, hargs, -⟩ := h
  exact checkArguments_fits (not_not.mp hcount) hargs

/-- A delegate is also what the same delegate quoted is. -/
theorem Conforms.quoted (hr : r.Nominal) {v : Value} {t : Ty} (hv : r.Conforms Γ v t)
    (ht : r.isDelegate t = true) : r.Conforms Γ v (.expression (r.stripExpression t)) := by
  have hfresh : ∀ u, r.isRedefined (.expression u) = false := fun _ => hr.fresh _ rfl
  have hsame : r.signature? (.expression (r.stripExpression t)) = r.signature? t := by
    unfold stripExpression
    split <;> simp [signature?, hfresh]
  obtain ⟨⟨params, ret⟩, hsig⟩ := Option.isSome_iff_exists.mp ht
  rcases hv.of_isDelegate hr hsig with rfl | ⟨e, ps, body, ty, rfl, hparts, rfl, hret, he⟩
  · exact .null
  · exact .lambda hparts (hsame.trans hsig) hret he.toVetted he.constants

/-- A lambda is of the delegate type that it is built with. -/
theorem lambda_conforms (hr : r.Nominal) {ps : List Parameter} {body : Expr} {t : Ty}
    (he : r.Admissible Γ (.lambda ps body t)) : r.Conforms Γ (.lambda (.lambda ps body t)) t := by
  rcases he.node.1 with hplain | ⟨delegate, htyped⟩
  · obtain rfl : Ty.func (ps.map (·.ty)) body.ty = t := by simpa [mkLambda] using hplain
    have hfresh : ∀ ps ret, r.isRedefined (.func ps ret) = false := fun _ _ => hr.fresh _ rfl
    exact .lambda rfl (by simp [signature?, hfresh]) .refl he.toVetted he.constants
  · simp only [mkLambdaTyped] at htyped
    split at htyped
    · cases htyped
    · rename_i params ret hsig
      split_ifs at htyped with hfits
      obtain ⟨rfl, hbody⟩ := hfits
      obtain rfl : r.stripExpression delegate = t := by simpa using htyped
      exact .lambda rfl hsig (.single hbody) he.toVetted he.constants

include hself in
theorem unaryValue_endsIn (hr : r.Nominal) (henv : r.Binds Γ env) {op : UnaryOp} {operand : Expr}
    {t : Ty} (he : r.Admissible Γ (.unary op operand t)) :
    EndsIn env (fun v => r.Conforms Γ v t) (r.unaryValue self op operand t) := by
  obtain ⟨htyped, hsafe⟩ := he.node
  refine endsIn_bind (hself (he.child (by simp [Expr.children])) henv) fun v hv => ?_
  have hderived : op.isConversion = false → op ≠ .quote →
      r.unaryResultType? op operand.ty = some t := by
    intro hop hquote
    rw [NodeTyped, if_neg (by simp [hop])] at htyped
    unfold mkUnary at htyped
    split at htyped
    · exact absurd rfl hquote
    · cases hop
    · cases hop
    · cases hop
    · split at htyped
      · rename_i u hu
        obtain rfl : u = t := by simpa using htyped
        exact hu
      · cases htyped
  have hliteral : op = .not ∨ op = .negate →
      operand.ty = t ∧ ∃ l, r.literal? operand.ty = some l := by
    rintro (rfl | rfl) <;>
    · have hresult := hderived rfl (by decide)
      simp only [unaryResultType?] at hresult
      split_ifs at hresult with hany
      obtain ⟨l, hl, -⟩ := (Option.any_eq_true _ _).mp hany
      exact ⟨Option.some.inj hresult, l, hl⟩
  cases op with
  | convert | convertChecked =>
      exact endsIn_ofExcept fun w hw => castValue_conforms hr hv (hsafe (by simp)) hw
  | typeAs =>
      apply endsIn_pure
      split
      · rename_i hinstance
        exact isInstance_conforms hr hv hinstance
      · exact .null
  | quote =>
      have hquote : r.mkQuote operand = .ok (.unary .quote operand t) := htyped
      obtain rfl : t = .expression (r.stripExpression operand.ty) := by
        simpa using mkQuote_eq_ok hquote
      unfold mkQuote at hquote
      split_ifs at hquote with hdelegate
      exact endsIn_pure (hv.quoted hr hdelegate)
  | not =>
      obtain ⟨rfl, l, hl⟩ := hliteral (.inl rfl)
      exact endsIn_ofExcept fun w hw => negation_conforms hr hl hv hw
  | negate =>
      obtain ⟨rfl, l, hl⟩ := hliteral (.inr rfl)
      exact endsIn_ofExcept fun w hw => negated_conforms hr hl hv hw
  | arrayLength =>
      have hresult := hderived rfl (by decide)
      simp only [unaryResultType?] at hresult
      split_ifs at hresult
      obtain rfl := Option.some.inj hresult
      dsimp only
      split
      · exact endsIn_pure (conforms_int hr _)
      · exact endsIn_throw

/-- A logical operator ends with one of its operands or with a connection of both. -/
theorem shortCircuit_endsIn (hr : r.Nominal) {op : BinaryOp} {absorbing : Bool} {left right : Expr}
    {t : Ty} (hop : op = .andAlso ∨ op = .orElse) (ht : r.resultType? op left.ty right.ty = some t)
    (hleft : EndsIn env (fun v => r.Conforms Γ v left.ty) (self left))
    (hright : EndsIn env (fun v => r.Conforms Γ v right.ty) (self right)) :
    EndsIn env (fun v => r.Conforms Γ v t) (shortCircuit self op absorbing left right) := by
  obtain ⟨l, hl, -, -, ht⟩ := resultType?_logical (by simp [hop]) ht
  replace ht := ht hr
  refine endsIn_bind hleft fun a ha => ?_
  have ha' := (conforms_of_literal? hr hl).mp ha
  split
  · exact endsIn_pure ((conforms_of_literal? hr ht).mpr ha')
  · refine endsIn_bind hright fun b _ => endsIn_ofExcept fun v hv => ?_
    exact (conforms_of_literal? hr ht).mpr (connective_holds ha' hv)

/-- The types that a coalescing operator goes between: the left operand without null and the right
one. -/
theorem conforms_of_coalesce (hr : r.Nominal) {left right t : Ty} {v : Value}
    (ht : r.resultType? .coalesce left right = some t) :
    (r.Conforms Γ v left → r.Conforms Γ v t) ∧ (r.Conforms Γ v right → r.Conforms Γ v t) := by
  simp only [resultType?] at ht
  split_ifs at ht with _ hsame hassign
  · obtain rfl := Option.some.inj ht
    exact ⟨(conforms_stripNullable hr).mpr, fun h => hsame ▸ h⟩
  · obtain rfl := Option.some.inj ht
    exact ⟨id, fun h => h.assign hr hassign⟩

include hself in
theorem binaryValue_endsIn (hr : r.Nominal) (henv : r.Binds Γ env) {op : BinaryOp}
    {left right : Expr} {conversion : Option Expr} {t : Ty}
    (he : r.Admissible Γ (.binary op left right conversion t)) :
    EndsIn env (fun v => r.Conforms Γ v t) (r.binaryValue self op left right conversion t) := by
  obtain ⟨htyped, hsafe⟩ := he.node
  have hleft := hself (he.child (c := left) (by simp [Expr.children])) henv
  have hright := hself (he.child (c := right) (by simp [Expr.children])) henv
  have ht : r.resultType? op left.ty right.ty = some t := by
    obtain ⟨u, hu, heq⟩ := mkBinary_eq_ok.mp htyped
    obtain rfl : t = u := by simpa using heq
    exact hu
  unfold binaryValue
  split
  · exact shortCircuit_endsIn hr (.inl rfl) ht hleft hright
  · exact shortCircuit_endsIn hr (.inr rfl) ht hleft hright
  · refine endsIn_bind hleft fun a ha => ?_
    split
    · exact hright.mono fun v hv => (conforms_of_coalesce hr ht).2 hv
    · cases conversion with
      | none => exact endsIn_pure ((conforms_of_coalesce hr ht).1 ha)
      | some c =>
          cases hparts : c.lambdaParts? with
          | none =>
              -- a conversion that is no lambda is not applied
              show EndsIn env _ (applyLambda self c [a])
              unfold applyLambda
              rw [hparts]
              exact endsIn_throw
          | some parts =>
              obtain ⟨ps, body, ty⟩ := parts
              obtain ⟨hparam, hbody⟩ := hsafe rfl ps body ty hparts
              have hc := he.child (c := c) (by simp [Expr.children])
              have hargs : ∀ b ∈ ps.zip [a], r.Conforms Γ b.2 b.1.ty := by
                intro b hb
                cases ps with
                | nil => cases hb
                | cons p ps =>
                    obtain rfl : b = (p, a) := by simpa using hb
                    exact ((conforms_stripNullable hr).mpr ha).fit hr (hparam p rfl)
              exact (applyLambda_endsIn hself hc hparts henv hargs).mono fun v hv => hv.fit hr hbody
  · refine endsIn_bind hleft fun a ha => endsIn_bind hright fun b hb => ?_
    exact endsIn_ofExcept fun v hv => operatorValue_conforms hr (by simp_all) ht ha hb hv

include hself in
/-- A node ends with a value of its type if the nodes below do. -/
theorem evalNode_endsIn (hr : r.Nominal) (henv : r.Binds Γ env) {e : Expr} (he : r.Admissible Γ e) :
    EndsIn env (fun v => r.Conforms Γ v e.ty) (r.evalNode self e) := by
  obtain ⟨htyped, hsafe⟩ := he.node
  have hchild : ∀ {c : Expr}, c ∈ e.children → EndsIn env (fun v => r.Conforms Γ v c.ty) (self c) :=
    fun hc => hself (he.child hc) henv
  have hchildren : ∀ {l : List Expr}, l ⊆ e.children →
      EndsIn env (fun vs => List.Forall₂ (fun v e => r.Conforms Γ v e.ty) vs l) (l.mapM self) :=
    fun hl => arguments_endsIn hself henv fun c hc => he.child (hl hc)
  cases e with
  | param p =>
      intro v env' h
      simp only [evalNode, returns_bind, returns_get] at h
      obtain ⟨_, _, ⟨rfl, rfl⟩, h⟩ := h
      split at h
      · rename_i w hw
        obtain ⟨rfl, rfl⟩ := returns_pure.mp h
        have hp : Γ p.id = some p.ty :=
          he.params p (Expr.named_subset_parameters _ List.mem_cons_self)
        exact ⟨henv p.id p.ty w hp hw, rfl⟩
      · exact absurd h returns_throw
  | const v t => exact endsIn_pure (he.constants v t (Expr.mem_nodes_self _))
  | member target m =>
      refine endsIn_bind (hchild (by simp [Expr.children])) fun v hv => ?_
      exact endsIn_ofExcept fun w hw =>
        valueMember_conforms hr hv (nodeTyped_member.mp htyped) hw
  | lambda ps body t => exact endsIn_pure (lambda_conforms hr he)
  | unary op operand t => exact unaryValue_endsIn hself hr henv he
  | binary op left right conversion t => exact binaryValue_endsIn hself hr henv he
  | cond test whenTrue whenFalse t =>
      have hbranches : t = whenTrue.ty ∧ whenFalse.ty = t := by
        simp only [NodeTyped, mkCond] at htyped
        split_ifs at htyped with _ hsame
        obtain rfl : whenTrue.ty = t := by simpa using htyped
        exact ⟨rfl, (not_not.mp hsame).symm⟩
      refine endsIn_bind (hchild (c := test) (by simp [Expr.children])) fun v _ => ?_
      split
      · exact hbranches.1 ▸ hchild (c := whenTrue) (by simp [Expr.children])
      · exact hbranches.2 ▸ hchild (c := whenFalse) (by simp [Expr.children])
      · exact endsIn_throw
  | call target? m args =>
      have hargs := hchildren (l := args) (by simp [Expr.children])
      have hcalled : ∀ {receiver? : Option Value},
          EndsIn env (fun v => r.Conforms Γ v m.ret)
            (args.mapM self >>= fun values => methodValue self m receiver? values) :=
        endsIn_bind hargs fun values hvalues => methodValue_endsIn hself hr henv hsafe.1 hsafe.2
          (Conforms.fit_all hr hvalues (mkCall_fits htyped))
      cases target? with
      | none => exact hcalled
      | some target =>
          exact endsIn_bind (hchild (c := target) (by simp [Expr.children])) fun _ _ => hcalled
  | new t inits =>
      have hinits : EndsIn env (fun fields => ∀ f ∈ fields, r.FieldFits Γ t f)
          (initValues self inits []) :=
        initValues_endsIn hself hr henv (fun i hi => he.child (List.mem_map_of_mem hi)) hsafe.2
          (by simp)
      refine endsIn_map hinits fun fields hfields => ?_
      exact .record hsafe.1 .refl fun base name v m hbase hmem hm => hfields _ hmem base m hbase hm
  | newArray t items =>
      obtain ⟨element, htyped⟩ := htyped
      obtain rfl : t = .array element := by simpa using mkNewArray_eq_ok htyped
      have hassign : ∀ item ∈ items, r.isAssignable item.ty element = true := by
        unfold mkNewArray at htyped
        split at htyped
        · cases htyped
        · rename_i hnone
          simpa using hnone
      refine endsIn_map (hchildren (l := items) (by simp [Expr.children])) fun values hvalues => ?_
      have helement : r.element? (.array element) = some element := by
        simp [element?, hr.fresh (.array element) rfl]
      exact .list helement (Conforms.assign_all hr hvalues hassign)
  | typeIs operand tested t =>
      obtain rfl : Ty.boolean = t := by simpa [NodeTyped, mkTypeIs] using htyped
      refine endsIn_bind (hchild (by simp [Expr.children])) fun v _ => ?_
      exact endsIn_pure (conforms_bool hr _)
  | invoke f args t =>
      have hargs := hchildren (l := args) (by simp [Expr.children])
      refine endsIn_bind (hchild (c := f) (by simp [Expr.children])) fun function hfunction => ?_
      refine endsIn_bind hargs fun values hvalues => ?_
      simp only [NodeTyped, mkInvoke] at htyped
      split at htyped
      · cases htyped
      · rename_i params ret hsig
        split_ifs at htyped
        obtain rfl : ret = t := by simpa using htyped
        exact applyValue_endsIn hself hr hfunction hsig henv
          (Conforms.fit_all hr hvalues (hsafe params ret hsig))
  | default t => exact endsIn_pure (defaultOf_conforms hr t)

end Apply

/-! ## §5  Expressions -/

/-- Over bindings of their types, an admissible expression ends with a value of its static type, if
with any, and leaves the bindings as they were. -/
theorem eval_conforms (hr : r.Nominal) {n : Nat} {e : Expr} {env env' : Env} {v : Value}
    (he : r.Admissible Γ e) (henv : r.Binds Γ env) (h : Returns (r.eval n e) env v env') :
    r.Conforms Γ v e.ty ∧ env' = env := by
  -- the nodes below, and lambdas that are applied, are followed one step less deep
  induction n generalizing e env env' v with
  | zero => exact absurd h returns_throw
  | succ n ih =>
      have hself : ∀ {e : Expr} {env : Env}, r.Admissible Γ e → r.Binds Γ env →
          EndsIn env (fun v => r.Conforms Γ v e.ty) (r.eval n e) := by
        intro e env he henv v env' h
        exact ih he henv h
      exact evalNode_endsIn hself hr henv he v env' h

/-! ### Books in a shop -/

/-- Nothing is redefined, and every declaration is a record that derives from none or from one. -/
theorem nominal_of_records (hredefined : r.redefined = []) (hinstances : r.instances = [])
    (hrecords : ∀ d ∈ r.declarations, ∃ name base members, d = .record name base members ∧
      ∀ b ∈ base, r.isRecord b = true) : r.Nominal where
  fresh t _ := by simp [isRedefined, hredefined]
  bases s b hbase := by
    unfold base? record? redefinition? at hbase
    rw [hredefined] at hbase
    cases s with
    | declared id =>
        simp only [List.find?_nil, Option.map_none] at hbase
        split at hbase
        · rename_i name base members hd
          obtain ⟨_, _, _, heq, hb⟩ := hrecords _ (List.mem_of_getElem? hd)
          cases heq
          exact hb b (by simpa using hbase)
        · cases hbase
    | inst g args =>
        have hnone : r.unfolded? g args = none := by
          unfold unfolded?
          split
          · rename_i hd
            obtain ⟨_, _, _, heq, -⟩ := hrecords _ (List.mem_of_getElem? hd)
            cases heq
          · rfl
        simp [instance?, hinstances, hnone] at hbase
    | _ => simp at hbase

theorem nominal_standard : Registry.standard.Nominal := nominal_of_records rfl rfl nofun

open Scoping

namespace Shop

def item : Ty := .declared 0

def book : Ty := .declared 1

/-- Items have prices; books are items, with what the members say besides. -/
def registry (members : List Member) : Registry where
  declarations := [.record "Item" none [⟨"Price", .int32⟩], .record "Book" (some item) members]
  methods := Catalogue.standard

theorem nominal (members : List Member) : (registry members).Nominal := by
  refine nominal_of_records rfl rfl fun d hd => ?_
  rcases hd with _ | ⟨_, _ | ⟨_, hd⟩⟩
  · exact ⟨_, _, _, rfl, nofun⟩
  · refine ⟨_, _, _, rfl, fun b hb => ?_⟩
    obtain rfl := Option.some.inj hb
    rfl
  · cases hd

theorem derives_book {members : List Member} {t : Ty} (h : (registry members).Derives book t) :
    t = book ∨ t = item := by
  induction h with
  | refl => exact .inl rfl
  | tail _ hbase ih =>
      rcases ih with rfl | rfl
      · exact .inr (Option.some.inj hbase).symm
      · cases hbase

/-- `((Item) new Book { Price = x }).Price + 1` -/
def raised : Expr :=
  .binary .add
    (.member (.unary .convert (.new book [("Price", .param x)]) item) ⟨"Price", .int32⟩)
    (number 1) none .int32

def typing : Nat → Option Ty
  | 0 => some .int32
  | _ => none

def bound : Env := Scope.push .empty [(0, .int 2)]

theorem raised_admissible : (registry []).Admissible typing raised where
  typed := by
    simp only [WellTyped, raised, number, Expr.nodes, Expr.nodesInits, List.forall_mem_cons,
      List.cons_append, List.nil_append, List.append_nil]
    exact ⟨rfl, rfl, rfl, .inl rfl, trivial, trivial, List.forall_mem_nil _⟩
  safe := by
    have hprice : ∀ t m, (registry []).Derives book t → (registry []).member? t "Price" = some m →
        m.ty = .int32 := by
      intro t m ht hm
      rcases derives_book ht with rfl | rfl <;>
      · obtain rfl : Member.mk "Price" .int32 = m := Option.some.inj hm
        rfl
    simp only [raised, number, Expr.nodes, Expr.nodesInits, List.forall_mem_cons, List.cons_append,
      List.nil_append, List.append_nil]
    refine ⟨trivial, trivial, ?_, ?_, trivial, trivial, List.forall_mem_nil _⟩
    · intro _
      exact .inl rfl
    · refine ⟨.inl rfl, fun i hi t m ht hm => ?_⟩
      obtain rfl := List.mem_singleton.mp hi
      rw [hprice t m ht hm]
      exact .refl
  params := by decide
  constants v t h := by
    simp [raised, number, Expr.nodes, Expr.nodesInits] at h
    obtain ⟨rfl, rfl⟩ := h
    exact conforms_int (nominal []) 1

end Shop

open Shop in
theorem eval_conforms_raised :
    Returns ((registry []).eval 5 raised) bound (.int 3) bound ∧
      (registry []).Conforms typing (.int 3) .int32 := by
  have hreturns : Returns ((registry []).eval 5 raised) bound (.int 3) bound := rfl
  have hbound : (registry []).Binds typing bound := by
    refine binds_empty.push fun b hb t ht => ?_
    obtain rfl := List.mem_singleton.mp hb
    obtain rfl := Option.some.inj ht
    exact conforms_int (nominal []) 2
  exact ⟨hreturns, (eval_conforms (nominal []) raised_admissible hbound hreturns).1⟩

/-! ## §6  Where types are lost -/

/-- The expression is closed and well typed, and its constants are values of their types; but it
ends with a value that is not of its own. -/
structure LosesType (r : Registry) (env : Env) (e : Expr) : Prop where
  typed : r.WellTyped e
  closed : e.Closed
  constants : ∀ Γ v t, .const v t ∈ e.nodes → r.Conforms Γ v t
  ends : ∃ n v, Returns (r.eval n e) env v env ∧ ∀ Γ, ¬ r.Conforms Γ v e.ty

theorem LosesType.of_literal {e : Expr} {env : Env} {v : Value} {n : Nat} {l : Literal}
    (hr : r.Nominal) (typed : r.WellTyped e) (closed : e.Closed)
    (constants : ∀ Γ v t, .const v t ∈ e.nodes → r.Conforms Γ v t) (hty : e.ty = .literal l)
    (h : Returns (r.eval n e) env v env) (hnull : v ≠ .null) (hv : l.admits v = false) :
    r.LosesType env e := by
  refine ⟨typed, closed, constants, n, v, h, fun Γ hconforms => ?_⟩
  rw [hty] at hconforms
  rcases (conforms_literal_iff hr).mp hconforms with heq | hadmits
  · exact hnull heq
  · rw [hv] at hadmits
    cases hadmits

namespace Shop

def text (s : String) : Expr := .const (.str s) .string

/-- `(String) (Object) 5` -/
def spelled : Expr := .unary .convert (.const (.int 5) .object) .string

theorem spelled_losesType : Registry.standard.LosesType .empty spelled := by
  refine .of_literal (v := .int 5) (n := 2) nominal_standard ?_ (by decide) ?_ rfl rfl nofun rfl
  · simp only [WellTyped, spelled, Expr.nodes, List.forall_mem_cons]
    exact ⟨rfl, trivial, List.forall_mem_nil _⟩
  · intro Γ v t h
    simp [spelled, Expr.nodes] at h
    obtain ⟨rfl, rfl⟩ := h
    exact .object rfl (conforms_int nominal_standard 5)

/-- `(Book) new Item { }` -/
def promoted : Expr := .unary .convert (.new item []) book

theorem promoted_losesType : (registry []).LosesType .empty promoted where
  typed := by
    simp only [WellTyped, promoted, Expr.nodes, Expr.nodesInits, List.forall_mem_cons]
    exact ⟨rfl, .inl rfl, List.forall_mem_nil _⟩
  closed := by decide
  constants Γ v t h := by simp [promoted, Expr.nodes, Expr.nodesInits] at h
  ends := by
    refine ⟨2, .record item [], rfl, fun Γ h => ?_⟩
    rcases h.of_isRecord (nominal []) rfl with hnull | ⟨own, fields, heq, hderives⟩
    · cases hnull
    · cases heq
      rcases hderives.cases_head with heq | ⟨b, hb, -⟩
      · cases heq
      · cases hb

/-- `(5 : Nullable<Int32>) ?? 1`, converted by `z => "five"`. -/
def coalesced : Expr :=
  .binary .coalesce (.const (.int 5) (.nullable .int32)) (number 1)
    (some (.lambda [z] (text "five") (.func [.int32] .string))) .int32

theorem coalesced_losesType : Registry.standard.LosesType .empty coalesced := by
  refine .of_literal (v := .str "five") (n := 3) nominal_standard ?_ (by decide) ?_ rfl rfl nofun
    rfl
  · simp only [WellTyped, coalesced, text, number, Expr.nodes, List.forall_mem_cons,
      List.cons_append, List.nil_append]
    exact ⟨rfl, trivial, trivial, .inl rfl, trivial, List.forall_mem_nil _⟩
  · intro Γ v t h
    simp [coalesced, text, number, Expr.nodes] at h
    rcases h with ⟨rfl, rfl⟩ | ⟨rfl, rfl⟩ | ⟨rfl, rfl⟩
    · exact .nullable rfl (conforms_int nominal_standard 5)
    · exact conforms_int nominal_standard 1
    · exact conforms_str nominal_standard _

/-- `(z => z)("five")` -/
def invoked : Expr := .invoke (.lambda [z] (.param z) (.func [.int32] .int32)) [text "five"] .int32

theorem invoked_losesType : Registry.standard.LosesType .empty invoked := by
  refine .of_literal (v := .str "five") (n := 3) nominal_standard ?_ (by decide) ?_ rfl rfl nofun
    rfl
  · simp only [WellTyped, invoked, text, Expr.nodes, Expr.nodesAll, List.forall_mem_cons,
      List.cons_append, List.nil_append, List.append_nil]
    exact ⟨rfl, .inl rfl, trivial, trivial, List.forall_mem_nil _⟩
  · intro Γ v t h
    simp [invoked, text, Expr.nodes, Expr.nodesAll] at h
    obtain ⟨rfl, rfl⟩ := h
    exact conforms_str nominal_standard _

/-- `Contains` without an item to look for, which is said to return a text. -/
def containsText : MethodSig :=
  ⟨"Enumerable", "Contains", true, 0, [.seq .enumerable .int32], .string⟩

/-- `Enumerable.Contains(new Int32[] { })` -/
def searched : Expr :=
  .call none ⟨containsText, [], [.seq .enumerable .int32], .string⟩ [.newArray (.array .int32) []]

theorem searched_losesType :
    (Registry.standard.addMethod containsText).LosesType .empty searched := by
  refine .of_literal (v := .bool false) (n := 2) (nominal_of_records rfl rfl nofun) ?_ (by decide)
    ?_ rfl rfl nofun rfl
  · simp only [WellTyped, searched, Expr.nodes, Expr.nodesAll, List.forall_mem_cons,
      List.append_nil]
    exact ⟨rfl, ⟨_, rfl⟩, List.forall_mem_nil _⟩
  · intro Γ v t h
    simp [searched, Expr.nodes, Expr.nodesAll] at h

/-- `new Int32 { }` -/
def numberRecord : Expr := .new .int32 []

theorem numberRecord_losesType : Registry.standard.LosesType .empty numberRecord := by
  refine .of_literal (v := .record .int32 []) (n := 1) nominal_standard ?_ (by decide) ?_ rfl rfl
    nofun rfl
  · simp only [WellTyped, numberRecord, Expr.nodes, Expr.nodesInits, List.forall_mem_cons]
    exact ⟨.inl rfl, List.forall_mem_nil _⟩
  · intro Γ v t h
    simp [numberRecord, Expr.nodes, Expr.nodesInits] at h

/-- `((Item) new Book { Price = "five" }).Price`, where books have prices of their own. -/
def priced : Expr :=
  .member (.unary .convert (.new book [("Price", text "five")]) item) ⟨"Price", .int32⟩

theorem priced_losesType : (registry [⟨"Price", .string⟩]).LosesType .empty priced := by
  refine .of_literal (v := .str "five") (n := 4) (nominal _) ?_ (by decide) ?_ rfl rfl nofun rfl
  · simp only [WellTyped, priced, text, Expr.nodes, Expr.nodesInits, List.forall_mem_cons,
      List.append_nil]
    exact ⟨rfl, rfl, .inl rfl, trivial, List.forall_mem_nil _⟩
  · intro Γ v t h
    simp [priced, text, Expr.nodes, Expr.nodesInits] at h
    obtain ⟨rfl, rfl⟩ := h
    exact conforms_str (nominal _) _

/-- `Int32` is a record. -/
def recordNumbers : Registry where
  redefined := [(.int32, ⟨"Int32", none, [], none⟩)]
  methods := Catalogue.standard

/-- `new Object[] { }.Length` -/
def measured : Expr := .member (.newArray (.array .object) []) ⟨"Length", .int32⟩

theorem measured_losesType : recordNumbers.LosesType .empty measured where
  typed := by
    simp only [WellTyped, measured, Expr.nodes, Expr.nodesAll, List.forall_mem_cons]
    exact ⟨rfl, ⟨_, rfl⟩, List.forall_mem_nil _⟩
  closed := by decide
  constants Γ v t h := by simp [measured, Expr.nodes, Expr.nodesAll] at h
  ends := by
    refine ⟨2, .num (.int 0), rfl, fun Γ h => ?_⟩
    cases h with
    | nullable ht => cases ht
    | literal hfresh => cases hfresh

/-- Flags derive from `Nullable<Boolean>`. -/
def flags : Registry where
  declarations := [.record "Flag" (some (.nullable .boolean)) []]
  methods := Catalogue.standard

/-- `((Nullable<Boolean>) new Flag { }).Value` -/
def raisedFlag : Expr :=
  .member (.unary .convert (.new (.declared 0) []) (.nullable .boolean)) ⟨"Value", .boolean⟩

theorem raisedFlag_losesType : flags.LosesType .empty raisedFlag where
  typed := by
    simp only [WellTyped, raisedFlag, Expr.nodes, Expr.nodesInits, List.forall_mem_cons]
    exact ⟨rfl, rfl, .inl rfl, List.forall_mem_nil _⟩
  closed := by decide
  constants Γ v t h := by simp [raisedFlag, Expr.nodes, Expr.nodesInits] at h
  ends := by
    refine ⟨3, .record (.declared 0) [], rfl, fun Γ h => ?_⟩
    cases h with
    | nullable ht => cases ht
    | literal _ hv => cases hv
    | record _ hderives =>
        rcases hderives.cases_head with heq | ⟨b, hb, hderives⟩
        · cases heq
        · obtain rfl := Option.some.inj hb
          rcases hderives.cases_head with heq | ⟨b, hb, -⟩
          · cases heq
          · cases hb

/-- `(x => y => x)(1)(2)` -/
def first : Expr :=
  .invoke
    (.invoke (.lambda [x] (.lambda [y] (.param x) (.func [.int32] .int32))
      (.func [.int32] (.func [.int32] .int32))) [number 1] (.func [.int32] .int32))
    [number 2] .int32

theorem first_losesType :
    Registry.standard.LosesType (Scope.push .empty [(0, .str "five")]) first := by
  refine .of_literal (v := .str "five") (n := 4) nominal_standard ?_ (by decide) ?_ rfl rfl nofun
    rfl
  · simp only [WellTyped, first, number, Expr.nodes, Expr.nodesAll, List.forall_mem_cons,
      List.cons_append, List.nil_append, List.append_nil]
    exact ⟨rfl, rfl, .inl rfl, .inl rfl, trivial, trivial, trivial, List.forall_mem_nil _⟩
  · intro Γ v t h
    simp [first, number, Expr.nodes, Expr.nodesAll] at h
    rcases h with ⟨rfl, rfl⟩ | ⟨rfl, rfl⟩ <;> exact conforms_int nominal_standard _

end Shop

open Shop in
/-- Conversions keep what they do not compute; a coalescing conversion, an invocation, a method and
the fields of a record are taken on trust; and a parameter of a lambda that is returned is looked up
where the lambda is applied. -/
theorem eval_conforms_fails :
    (Registry.standard.LosesType .empty spelled ∧ (registry []).LosesType .empty promoted) ∧
      Registry.standard.LosesType .empty coalesced ∧ Registry.standard.LosesType .empty invoked ∧
      (Registry.standard.addMethod containsText).LosesType .empty searched ∧
      (Registry.standard.LosesType .empty numberRecord ∧
        (registry [⟨"Price", .string⟩]).LosesType .empty priced) ∧
      (recordNumbers.LosesType .empty measured ∧ flags.LosesType .empty raisedFlag) ∧
      Registry.standard.LosesType (Scope.push .empty [(0, .str "five")]) first :=
  ⟨⟨spelled_losesType, promoted_losesType⟩, coalesced_losesType, invoked_losesType,
    searched_losesType, ⟨numberRecord_losesType, priced_losesType⟩,
    ⟨measured_losesType, raisedFlag_losesType⟩, first_losesType⟩

end Registry

end Recast
