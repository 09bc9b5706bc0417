import Mathlib.Data.List.Basic
import Mathlib.Logic.Function.Basic
import Recast.Proofs.Nodes
import Recast.Recaster.Chain

/-! # Renumbered parameters

Parameters are told apart by their numbers alone, so expressions whose parameters
are numbered differently mean the same.  `Expr.renumber f` numbers every parameter
anew.  Types do not see the numbers, so checked construction gives the same
expression, renumbered (`Registry.mkBinary_renumber` and its like); what compares or
replaces parameters does so as long as different numbers stay different.
-/

namespace Recast

/-! ## §1  Renumbering -/

def Parameter.renumber (f : Nat → Nat) (p : Parameter) : Parameter := { p with id := f p.id }

@[simp] theorem Parameter.ty_renumber (f : Nat → Nat) (p : Parameter) :
    (p.renumber f).ty = p.ty := rfl

theorem Parameter.renumber_inj {f : Nat → Nat} (hf : Function.Injective f) {p q : Parameter} :
    p.renumber f = q.renumber f ↔ p = q := by
  constructor
  · intro h
    cases p
    cases q
    simp only [renumber, Parameter.mk.injEq] at h ⊢
    exact ⟨hf h.1, h.2⟩
  · rintro rfl
    rfl

namespace Expr

mutual

/-- Every parameter with a new number.  The values of constants stay as they are. -/
def renumber (f : Nat → Nat) : Expr → Expr
  | .param p => .param (p.renumber f)
  | e@(.const _ _) | e@(.default _) => e
  | .member e m => .member (renumber f e) m
  | .lambda ps body t => .lambda (ps.map (·.renumber f)) (renumber f body) t
  | .unary op e t => .unary op (renumber f e) t
  | .binary op l r none t => .binary op (renumber f l) (renumber f r) none t
  | .binary op l r (some c) t =>
    .binary op (renumber f l) (renumber f r) (some (renumber f c)) t
  | .cond c a b t => .cond (renumber f c) (renumber f a) (renumber f b) t
  | .call none m args => .call none m (renumberAll f args)
  | .call (some e) m args => .call (some (renumber f e)) m (renumberAll f args)
  | .new t inits => .new t (renumberInits f inits)
  | .newArray t items => .newArray t (renumberAll f items)
  | .typeIs e tested t => .typeIs (renumber f e) tested t
  | .invoke g args t => .invoke (renumber f g) (renumberAll f args) t

def renumberAll (f : Nat → Nat) : List Expr → List Expr
  | [] => []
  | e :: es => renumber f e :: renumberAll f es

def renumberInits (f : Nat → Nat) : List (String × Expr) → List (String × Expr)
  | [] => []
  | (name, e) :: es => (name, renumber f e) :: renumberInits f es

end

variable {f : Nat → Nat}

theorem renumberAll_eq (f : Nat → Nat) : ∀ es : List Expr, renumberAll f es = es.map (renumber f)
  | [] => rfl
  | e :: es => by rw [renumberAll, renumberAll_eq f es, List.map_cons]

theorem renumberInits_eq (f : Nat → Nat) : ∀ inits : List (String × Expr),
    renumberInits f inits = inits.map fun i => (i.1, renumber f i.2)
  | [] => rfl
  | (_, e) :: inits => by rw [renumberInits, renumberInits_eq f inits, List.map_cons]

theorem renumber_binary (f : Nat → Nat) (op : BinaryOp) (l r : Expr) (c : Option Expr) (t : Ty) :
    renumber f (.binary op l r c t) =
      .binary op (renumber f l) (renumber f r) (c.map (renumber f)) t := by
  cases c <;> simp [renumber]

theorem renumber_call (f : Nat → Nat) (target : Option Expr) (m : Method) (args : List Expr) :
    renumber f (.call target m args) =
      .call (target.map (renumber f)) m (args.map (renumber f)) := by
  cases target <;> simp [renumber, renumberAll_eq]

@[simp] theorem ty_renumber (f : Nat → Nat) (e : Expr) : (e.renumber f).ty = e.ty := by
  cases e using shapes <;> rfl

theorem children_renumber (f : Nat → Nat) (e : Expr) :
    (e.renumber f).children = e.children.map (renumber f) := by
  cases e using shapes <;> simp [renumber, children, renumberAll_eq, renumberInits_eq]

theorem nodes_renumber (f : Nat → Nat) (e : Expr) :
    (e.renumber f).nodes = e.nodes.map (renumber f) := by
  induction e using induction_children with
  | step e ih =>
      rw [nodes_eq, nodes_eq e, children_renumber, List.map_cons, List.flatMap_map,
        List.map_flatMap]
      congr 1
      exact List.flatMap_congr fun c hc => ih c hc

/-! ### Numbers that stay -/

theorem map_renumber_eq_self {ps : List Parameter} (h : ∀ p ∈ ps, f p.id = p.id) :
    ps.map (·.renumber f) = ps := by
  refine (List.map_congr_left fun p hp => ?_).trans (List.map_id' ps)
  rw [Parameter.renumber, h p hp]

/-- An expression all of whose numbers stay is the same. -/
theorem renumber_eq_self (e : Expr) : (∀ p ∈ e.parameters, f p.id = p.id) → e.renumber f = e := by
  induction e using induction_children with
  | step e ih =>
      intro h
      have hc : ∀ c ∈ e.children, c.renumber f = c := fun c hc =>
        ih c hc fun p hp => h p (parameters_subset_of_child hc hp)
      have hnamed : ∀ p ∈ e.named, f p.id = p.id := fun p hp => h p (e.named_subset_parameters hp)
      have hall : ∀ es : List Expr, (∀ x ∈ es, x ∈ e.children) → es.map (renumber f) = es :=
        fun es hes => (List.map_congr_left fun x hx => hc x (hes x hx)).trans (List.map_id' es)
      cases e with
      | param p => rw [renumber, Parameter.renumber, hnamed p List.mem_cons_self]
      | const v t => rfl
      | default t => rfl
      | member e m => rw [renumber, hc e (by simp [children])]
      | lambda ps body t =>
          have hps : ps.map (·.renumber f) = ps := map_renumber_eq_self hnamed
          rw [renumber, hc body (by simp [children]), hps]
      | unary op e t => rw [renumber, hc e (by simp [children])]
      | typeIs e tested t => rw [renumber, hc e (by simp [children])]
      | binary op l r conversion t =>
          have hconversion : conversion.map (renumber f) = conversion := by
            cases conversion with
            | none => rfl
            | some c => rw [Option.map_some, hc c (by simp [children])]
          rw [renumber_binary, hc l (by simp [children]), hc r (by simp [children]), hconversion]
      | cond a b d t =>
          rw [renumber, hc a (by simp [children]), hc b (by simp [children]),
            hc d (by simp [children])]
      | call target m args =>
          have htarget : target.map (renumber f) = target := by
            cases target with
            | none => rfl
            | some e => rw [Option.map_some, hc e (by simp [children])]
          rw [renumber_call, htarget, hall args fun x hx => by simp [children, hx]]
      | new t inits =>
          have hinits : (inits.map fun i => (i.1, renumber f i.2)) = inits := by
            refine (List.map_congr_left fun i hi => ?_).trans (List.map_id' inits)
            rw [hc i.2 (List.mem_map_of_mem hi)]
          rw [renumber, renumberInits_eq, hinits]
      | newArray t items => rw [renumber, renumberAll_eq, hall items fun x hx => hx]
      | invoke g args t =>
          rw [renumber, renumberAll_eq, hc g (by simp [children]),
            hall args fun x hx => by simp [children, hx]]

/-! ## §2  Views -/

theorem lambdaParts?_renumber (f : Nat → Nat) (e : Expr) :
    (e.renumber f).lambdaParts? =
      e.lambdaParts?.map fun (ps, body, t) => (ps.map (·.renumber f), body.renumber f, t) := by
  induction e using lambdaParts?.induct with
  | case1 ps body t => rfl
  | case2 e t ih => simpa [renumber, lambdaParts?] using ih
  | case3 e hlambda hquote =>
      cases e using shapes with
      | lambda ps body t => exact absurd rfl (hlambda ps body t)
      | unary op e t =>
          cases op with
          | quote => exact absurd rfl (hquote e t)
          | _ => rfl
      | _ => rfl

theorem chainBase_renumber (f : Nat → Nat) : ∀ e : Expr,
    (e.renumber f).chainBase = e.chainBase.renumber f
  | .member e m => chainBase_renumber f e
  | .binary op l r c t => by cases c <;> rfl
  | .call target m args => by cases target <;> rfl
  | .param _ | .const _ _ | .default _ | .lambda _ _ _ | .unary _ _ _ | .cond _ _ _ _
  | .new _ _ | .newArray _ _ | .typeIs _ _ _ | .invoke _ _ _ => rfl

theorem chainNames_renumber (f : Nat → Nat) : ∀ e : Expr,
    (e.renumber f).chainNames = e.chainNames
  | .member e m => congrArg (· ++ [m.name]) (chainNames_renumber f e)
  | .binary op l r c t => by cases c <;> rfl
  | .call target m args => by cases target <;> rfl
  | .param _ | .const _ _ | .default _ | .lambda _ _ _ | .unary _ _ _ | .cond _ _ _ _
  | .new _ _ | .newArray _ _ | .typeIs _ _ _ | .invoke _ _ _ => rfl

theorem isMember_renumber (f : Nat → Nat) (e : Expr) : (e.renumber f).isMember = e.isMember := by
  cases e using shapes <;> rfl

theorem select_renumber (f : Nat → Nat) : ∀ (ms : List Member) (e : Expr),
    (e.renumber f).select ms = (e.select ms).renumber f
  | [], _ => rfl
  | m :: ms, e => select_renumber f ms (.member e m)

/-! ## §3  Comparison and substitution -/

theorem parameter_beq_renumber (hf : Function.Injective f) (p q : Parameter) :
    (p.renumber f == q.renumber f) = (p == q) := by
  rw [Bool.eq_iff_iff, beq_iff_eq, beq_iff_eq]
  exact Parameter.renumber_inj hf

theorem parameters_beq_renumber (hf : Function.Injective f) (ps qs : List Parameter) :
    (ps.map (·.renumber f) == qs.map (·.renumber f)) = (ps == qs) := by
  rw [Bool.eq_iff_iff, beq_iff_eq, beq_iff_eq]
  exact (List.map_injective_iff.mpr fun p q => (Parameter.renumber_inj hf).mp).eq_iff

mutual

/-- Renumbered expressions are the same exactly if the expressions are. -/
theorem beq_renumber (hf : Function.Injective f) :
    ∀ a b : Expr, (a.renumber f).beq (b.renumber f) = a.beq b
  | .param p, b => by
      cases b using shapes <;> simp [renumber, Expr.beq, parameter_beq_renumber hf]
  | .const v t, b | .default t, b => by
      cases b using shapes <;> simp [renumber, Expr.beq]
  | .member a m, b | .unary op a t, b | .typeIs a tested t, b => by
      have ha := beq_renumber hf a
      cases b using shapes <;> simp [renumber, Expr.beq, ha]
  | .lambda ps body t, b => by
      have hbody := beq_renumber hf body
      cases b using shapes <;> simp [renumber, Expr.beq, parameters_beq_renumber hf, hbody]
  | .binary op l r none t, b => by
      have hl := beq_renumber hf l
      have hr := beq_renumber hf r
      cases b using shapes <;> simp [renumber, Expr.beq, hl, hr]
  | .binary op x y (some z) t, b | .cond x y z t, b => by
      have hx := beq_renumber hf x
      have hy := beq_renumber hf y
      have hz := beq_renumber hf z
      cases b using shapes <;> simp [renumber, Expr.beq, hx, hy, hz]
  | .call none m args, b | .newArray t args, b => by
      have hargs := beqAll_renumber hf args
      cases b using shapes <;> simp [renumber, Expr.beq, hargs]
  | .call (some target) m args, b | .invoke target args t, b => by
      have htarget := beq_renumber hf target
      have hargs := beqAll_renumber hf args
      cases b using shapes <;> simp [renumber, Expr.beq, htarget, hargs]
  | .new t inits, b => by
      have hinits := beqInits_renumber hf inits
      cases b using shapes <;> simp [renumber, Expr.beq, hinits]

theorem beqAll_renumber (hf : Function.Injective f) : ∀ as bs : List Expr,
    Expr.beqAll (renumberAll f as) (renumberAll f bs) = Expr.beqAll as bs
  | [], bs => by cases bs <;> simp [renumberAll, Expr.beqAll]
  | a :: as, bs => by
      have ha := beq_renumber hf a
      have has := beqAll_renumber hf as
      cases bs <;> simp [renumberAll, Expr.beqAll, ha, has]

theorem beqInits_renumber (hf : Function.Injective f) : ∀ as bs : List (String × Expr),
    Expr.beqInits (renumberInits f as) (renumberInits f bs) = Expr.beqInits as bs
  | [], [] | [], _ :: _ | _ :: _, [] => rfl
  | (n, a) :: as, (m, b) :: bs => by
      have ha := beq_renumber hf a b
      have has := beqInits_renumber hf as bs
      simp [renumberInits, Expr.beqInits, ha, has]

end

/-- What replaces a parameter replaces it under its new number, which is no other one. -/
theorem substitute_renumber (hf : Function.Injective f) (id : Nat) (x e : Expr) :
    (substitute id x e).renumber f = substitute (f id) (x.renumber f) (e.renumber f) := by
  induction e using induction_children with
  | step e ih =>
      have hall : ∀ es : List Expr, (∀ y ∈ es, y ∈ e.children) →
          (es.map (substitute id x)).map (renumber f) =
            (es.map (renumber f)).map (substitute (f id) (x.renumber f)) := by
        intro es hes
        rw [List.map_map, List.map_map]
        exact List.map_congr_left fun y hy => ih y (hes y hy)
      cases e using shapes with
      | param p =>
          by_cases hp : p.id = id
          · simp [substitute, renumber, Parameter.renumber, hp]
          · simp [substitute, renumber, Parameter.renumber, hp, hf.eq_iff]
      | const v t | default t => rfl
      | callStatic m args =>
          simp only [substitute, renumber, substituteAll_eq, renumberAll_eq]
          rw [hall args fun y hy => hy]
      | call target m args =>
          simp only [substitute, renumber, substituteAll_eq, renumberAll_eq]
          rw [hall args fun y hy => by simp [children, hy], ih target (by simp [children])]
      | new t inits =>
          simp only [substitute, renumber, substituteInits_eq, renumberInits_eq, List.map_map]
          congr 1
          refine List.map_congr_left fun i hi => ?_
          simp only [Function.comp_apply]
          rw [ih i.2 (List.mem_map_of_mem hi)]
      | newArray t items =>
          simp only [substitute, renumber, substituteAll_eq, renumberAll_eq]
          rw [hall items fun y hy => hy]
      | invoke g args t =>
          simp only [substitute, renumber, substituteAll_eq, renumberAll_eq]
          rw [hall args fun y hy => by simp [children, hy], ih g (by simp [children])]
      | _ => simp_all [substitute, renumber, children]

end Expr

/-! ## §4  Checked construction -/

namespace Registry

variable {f : Nat → Nat} (r : Registry)

theorem mkMember_renumber (target : Expr) (name : String) :
    r.mkMember (target.renumber f) name = (r.mkMember target name).map (·.renumber f) := by
  unfold mkMember
  rw [Expr.ty_renumber]
  cases r.requireMember target.ty name <;> rfl

theorem mkPath_renumber : ∀ (path : List String) (target : Expr),
    r.mkPath (target.renumber f) path = (r.mkPath target path).map (·.renumber f)
  | [], _ => rfl
  | name :: names, target => by
      rw [mkPath, mkPath, mkMember_renumber]
      cases hm : r.mkMember target name with
      | error e => rfl
      | ok e => exact mkPath_renumber names e

theorem mkLambda_renumber (params : List Parameter) (body : Expr) :
    mkLambda (params.map (·.renumber f)) (body.renumber f) = (mkLambda params body).renumber f := by
  simp [mkLambda, Expr.renumber, Function.comp_def]

theorem mkLambdaTyped_renumber (delegate : Ty) (params : List Parameter) (body : Expr) :
    r.mkLambdaTyped delegate (params.map (·.renumber f)) (body.renumber f) =
      (r.mkLambdaTyped delegate params body).map (·.renumber f) := by
  have htys : (params.map (·.renumber f)).map (·.ty) = params.map (·.ty) := by
    simp [Function.comp_def]
  simp only [mkLambdaTyped, mkLambda_renumber, htys, Expr.ty_renumber]
  split
  · rfl
  · split <;> rfl

theorem mkQuote_renumber (lambda : Expr) :
    r.mkQuote (lambda.renumber f) = (r.mkQuote lambda).map (·.renumber f) := by
  unfold mkQuote
  rw [Expr.ty_renumber]
  split <;> rfl

theorem mkConversion_renumber (op : UnaryOp) (operand : Expr) (ty : Ty) :
    r.mkConversion op (operand.renumber f) ty =
      (r.mkConversion op operand ty).map (·.renumber f) := by
  unfold mkConversion
  rw [Expr.ty_renumber]
  dsimp only
  split
  · split <;> rfl
  · split <;> rfl

theorem mkUnary_renumber (op : UnaryOp) (operand : Expr) :
    r.mkUnary op (operand.renumber f) = (r.mkUnary op operand).map (·.renumber f) := by
  unfold mkUnary
  rw [Expr.ty_renumber]
  split
  · exact r.mkQuote_renumber operand
  · exact r.mkConversion_renumber .convert operand operand.ty
  · exact r.mkConversion_renumber .convertChecked operand operand.ty
  · exact r.mkConversion_renumber .typeAs operand operand.ty
  · split <;> rfl

theorem mkBinary_renumber (op : BinaryOp) (left right : Expr) (conversion : Option Expr) :
    r.mkBinary op (left.renumber f) (right.renumber f) (conversion.map (·.renumber f)) =
      (r.mkBinary op left right conversion).map (·.renumber f) := by
  unfold mkBinary
  rw [Expr.ty_renumber, Expr.ty_renumber]
  cases r.resultType op left.ty right.ty with
  | error e => rfl
  | ok t => exact congrArg Except.ok (Expr.renumber_binary f op left right conversion t).symm

theorem mkCond_renumber (test whenTrue whenFalse : Expr) :
    r.mkCond (test.renumber f) (whenTrue.renumber f) (whenFalse.renumber f) =
      (r.mkCond test whenTrue whenFalse).map (·.renumber f) := by
  unfold mkCond
  simp only [Expr.ty_renumber]
  split
  · rfl
  · split
    · rfl
    · simp [Except.map, Expr.renumber]

theorem checkArguments_renumber (m : Method) : ∀ (i : Nat) (params : List Ty) (args : List Expr),
    r.checkArguments m i params (args.map (·.renumber f)) = r.checkArguments m i params args
  | _, [], _ => by simp only [checkArguments]
  | _, _ :: _, [] => rfl
  | i, p :: params, arg :: args => by
      rw [List.map_cons, checkArguments, checkArguments, Expr.ty_renumber,
        checkArguments_renumber m (i + 1) params args]

theorem mkCall_renumber (target : Option Expr) (m : Method) (args : List Expr) :
    r.mkCall (target.map (·.renumber f)) m (args.map (·.renumber f)) =
      (r.mkCall target m args).map (·.renumber f) := by
  unfold mkCall
  rw [Option.isSome_map, List.length_map, checkArguments_renumber]
  split
  · rfl
  · split
    · rfl
    · cases r.checkArguments m 0 m.params args with
      | error e => rfl
      | ok _ => exact congrArg Except.ok (Expr.renumber_call f target m args).symm

theorem checkInits_renumber (t : Ty) : ∀ inits : List (String × Expr),
    r.checkInits t (inits.map fun i => (i.1, i.2.renumber f)) = r.checkInits t inits
  | [] => rfl
  | (name, e) :: inits => by
      simp only [List.map_cons, checkInits, Expr.ty_renumber, checkInits_renumber t inits]

theorem mkNew_renumber (t : Ty) (inits : List (String × Expr)) :
    r.mkNew t (inits.map fun i => (i.1, i.2.renumber f)) =
      (r.mkNew t inits).map (·.renumber f) := by
  unfold mkNew
  rw [checkInits_renumber]
  cases r.checkInits t inits with
  | error e => rfl
  | ok _ => exact congrArg (fun inits => Except.ok (Expr.new t inits)) (Expr.renumberInits_eq f inits).symm

theorem mkAnonymous_renumber (inits : List (String × Expr)) :
    mkAnonymous (inits.map fun i => (i.1, i.2.renumber f)) = (mkAnonymous inits).renumber f := by
  simp [mkAnonymous, Expr.renumber, Expr.renumberInits_eq, Function.comp_def]

theorem mkNewArray_renumber (element : Ty) (items : List Expr) :
    r.mkNewArray element (items.map (·.renumber f)) =
      (r.mkNewArray element items).map (·.renumber f) := by
  unfold mkNewArray
  rw [List.find?_map]
  simp only [Function.comp_def, Expr.ty_renumber]
  cases items.find? fun e => !r.isAssignable e.ty element with
  | some e => simp [Except.map]
  | none =>
      exact congrArg (fun items => Except.ok (Expr.newArray (.array element) items))
        (Expr.renumberAll_eq f items).symm

theorem mkInvoke_renumber (g : Expr) (args : List Expr) :
    r.mkInvoke (g.renumber f) (args.map (·.renumber f)) =
      (r.mkInvoke g args).map (·.renumber f) := by
  unfold mkInvoke
  rw [Expr.ty_renumber, List.length_map]
  split
  · rfl
  · split
    · rename_i ret _ _
      exact congrArg (fun args => Except.ok (Expr.invoke (g.renumber f) args ret))
        (Expr.renumberAll_eq f args).symm
    · rfl

/-! ### Custom lambdas and single chains -/

theorem fitArgument_renumber (argument : Expr) (t : Ty) :
    r.fitArgument (argument.renumber f) t = (r.fitArgument argument t).map (·.renumber f) := by
  unfold fitArgument mkConvert
  rw [Expr.ty_renumber, mkConversion_renumber]
  split <;> rfl

/-- A custom lambda whose parameters keep their numbers. -/
theorem betaReduce_renumber (hf : Function.Injective f) {custom : Expr}
    (hcustom : custom.renumber f = custom) (argument : Expr) :
    r.betaReduce custom (argument.renumber f) =
      (r.betaReduce custom argument).map (·.renumber f) := by
  have hparts := Expr.lambdaParts?_renumber f custom
  rw [hcustom] at hparts
  unfold betaReduce
  split
  · rfl
  · rename_i p body t hcase
    rw [hcase] at hparts
    simp only [Option.map_some, List.map_cons, List.map_nil, Option.some.injEq, Prod.mk.injEq,
      List.cons.injEq, and_true] at hparts
    obtain ⟨hp, hbody⟩ := hparts
    rw [fitArgument_renumber]
    cases r.fitArgument argument p.ty with
    | error e => rfl
    | ok fitted =>
        show Except.ok _ = Except.ok ((Expr.substitute p.id fitted body).renumber f)
        have hid : f p.id = p.id := (congrArg Parameter.id hp).symm
        rw [Expr.substitute_renumber hf, hid, ← hbody]
  · rfl

theorem chainsFrom_renumber (hf : Function.Injective f) (root e : Expr) :
    chainsFrom (root.renumber f) (e.renumber f) = chainsFrom root e := by
  have hsame : ∀ n : Expr, ((n.renumber f).isMember && (n.renumber f).chainBase == root.renumber f) =
      (n.isMember && n.chainBase == root) := by
    intro n
    rw [Expr.isMember_renumber, Expr.chainBase_renumber]
    exact congrArg (n.isMember && ·) (Expr.beq_renumber hf _ _)
  unfold chainsFrom
  rw [Expr.nodes_renumber, List.filter_map, List.map_map]
  congr 1
  rw [funext (Expr.chainNames_renumber f) (f := Expr.chainNames ∘ Expr.renumber f)]
  exact congrArg (List.map Expr.chainNames) (List.filter_congr fun n _ => hsame n)

theorem longestChain_renumber (root : Expr) : ∀ (longest : List String) (chains : List (List String)),
    r.longestChain (root.renumber f) longest chains = r.longestChain root longest chains
  | _, [] => rfl
  | longest, next :: chains => by
      simp only [longestChain, chainText, Expr.ty_renumber,
        longestChain_renumber root next chains]

theorem singleChain_renumber (hf : Function.Injective f) (e root : Expr) :
    r.singleChain (e.renumber f) (root.renumber f) =
      (r.singleChain e root).map (·.renumber f) := by
  unfold singleChain
  rw [chainsFrom_renumber hf]
  split
  · rfl
  · rename_i shortest chains _
    rw [longestChain_renumber]
    cases r.longestChain root shortest chains with
    | error e => rfl
    | ok chain => exact r.mkPath_renumber chain root

end Registry

end Recast
