import Mathlib.Tactic.SplitIfs
import Recast.Expr.Checked
import Recast.Proofs.Nodes
import Recast.Proofs.Run

/-! # Well-typed expressions

A node is well typed when its constructor, given the parts of the node, builds
exactly that node, and an expression is when all of its nodes are.  The checks of
the constructors look at the types of the parts only.  So a part may be exchanged
for another of its type, and in particular a parameter for an expression of its
type.
-/

namespace Recast

namespace Registry

variable (r : Registry)

/-! ## The check of a node -/

/-- The constructor of the node builds it from its parts. -/
def NodeTyped (e : Expr) : Prop :=
  match e with
  | .param _ | .const _ _ | .default _ => True
  | .member target m => r.mkMember target m.name = .ok e
  | .lambda params body _ =>
    mkLambda params body = e ∨ ∃ delegate, r.mkLambdaTyped delegate params body = .ok e
  | .unary op operand ty =>
    (if op.isConversion then r.mkConversion op operand ty else r.mkUnary op operand) = .ok e
  | .binary op left right conversion _ => r.mkBinary op left right conversion = .ok e
  | .cond test whenTrue whenFalse _ => r.mkCond test whenTrue whenFalse = .ok e
  | .call target m args => r.mkCall target m args = .ok e
  | .new ty inits => r.mkNew ty inits = .ok e ∨ mkAnonymous inits = e
  | .newArray _ items => ∃ element, r.mkNewArray element items = .ok e
  | .typeIs operand tested _ => mkTypeIs operand tested = e
  | .invoke f args _ => r.mkInvoke f args = .ok e

/-- Every node passes its check. -/
def WellTyped (e : Expr) : Prop := ∀ n ∈ e.nodes, r.NodeTyped n

variable {r}

theorem wellTyped_iff {e : Expr} :
    r.WellTyped e ↔ r.NodeTyped e ∧ ∀ c ∈ e.children, r.WellTyped c := by
  simp only [WellTyped, e.nodes_eq, List.mem_cons, List.mem_flatMap]
  constructor
  · intro h
    exact ⟨h e (.inl rfl), fun c hc n hn => h n (.inr ⟨c, hc, hn⟩)⟩
  · rintro ⟨he, hc⟩ n (rfl | ⟨c, hmem, hn⟩)
    · exact he
    · exact hc c hmem n hn

theorem WellTyped.child {e c : Expr} (h : r.WellTyped e) (hc : c ∈ e.children) : r.WellTyped c :=
  (wellTyped_iff.mp h).2 c hc

theorem WellTyped.node {e : Expr} (h : r.WellTyped e) : r.NodeTyped e := (wellTyped_iff.mp h).1

/-! ## What the constructors build -/

theorem requireMember_eq_ok {t : Ty} {name : String} {m : Member} :
    r.requireMember t name = .ok m ↔ r.member? t name = some m := by
  unfold requireMember
  cases r.member? t name <;> simp

/-- The member of a name has that name. -/
theorem name_of_member? {t : Ty} {name : String} {m : Member} (h : r.member? t name = some m) :
    m.name = name := by
  unfold member? at h
  split at h
  · simpa using List.find?_some h
  · obtain ⟨t, -, rfl⟩ := Option.map_eq_some_iff.mp h
    rfl

theorem mkMember_eq_ok {target e : Expr} {name : String} :
    r.mkMember target name = .ok e ↔
      ∃ m, r.member? target.ty name = some m ∧ e = .member target m := by
  simp only [mkMember, Checked.bind_eq_ok, requireMember_eq_ok, Checked.pure_eq_ok]
  constructor
  · rintro ⟨m, hm, rfl⟩
    exact ⟨m, hm, rfl⟩
  · rintro ⟨m, hm, rfl⟩
    exact ⟨m, hm, rfl⟩

theorem nodeTyped_member {target : Expr} {m : Member} :
    r.NodeTyped (.member target m) ↔ r.member? target.ty m.name = some m := by
  simp only [NodeTyped, mkMember_eq_ok, Expr.member.injEq, true_and]
  constructor
  · rintro ⟨m', hm, rfl⟩
    exact hm
  · intro h
    exact ⟨m, h, rfl⟩

theorem mkConversion_eq_ok {op : UnaryOp} {operand e : Expr} {ty : Ty}
    (h : r.mkConversion op operand ty = .ok e) : e = .unary op operand ty := by
  simp only [mkConversion] at h
  cases hvalid : (if op = .typeAs then !r.isValueType ty || (r.underlying? ty).isSome
    else r.isConvertible operand.ty ty) with
  | false => simp [hvalid] at h
  | true => simpa [hvalid] using h.symm

theorem mkQuote_eq_ok {lambda e : Expr} (h : r.mkQuote lambda = .ok e) :
    e = .unary .quote lambda (.expression (r.stripExpression lambda.ty)) := by
  unfold mkQuote at h
  split at h
  · cases h
    rfl
  · cases h

theorem mkUnary_eq_ok {op : UnaryOp} {operand e : Expr} (hop : op.isConversion = false)
    (h : r.mkUnary op operand = .ok e) : ∃ t, e = .unary op operand t := by
  cases op with
  | convert => simp [UnaryOp.isConversion] at hop
  | convertChecked => simp [UnaryOp.isConversion] at hop
  | typeAs => simp [UnaryOp.isConversion] at hop
  | quote => exact ⟨_, mkQuote_eq_ok h⟩
  | not | negate | arrayLength =>
      simp only [mkUnary] at h
      split at h
      · cases h
        exact ⟨_, rfl⟩
      · cases h

theorem resultType_eq_ok {op : BinaryOp} {left right t : Ty} :
    r.resultType op left right = .ok t ↔ r.resultType? op left right = some t := by
  unfold resultType
  cases r.resultType? op left right <;> simp

theorem mkBinary_eq_ok {op : BinaryOp} {left right e : Expr} {conversion : Option Expr} :
    r.mkBinary op left right conversion = .ok e ↔
      ∃ t, r.resultType? op left.ty right.ty = some t ∧
        e = .binary op left right conversion t := by
  simp only [mkBinary, Checked.bind_eq_ok, resultType_eq_ok, Checked.pure_eq_ok]
  constructor
  · rintro ⟨t, ht, rfl⟩
    exact ⟨t, ht, rfl⟩
  · rintro ⟨t, ht, rfl⟩
    exact ⟨t, ht, rfl⟩

theorem mkCond_eq_ok {test whenTrue whenFalse e : Expr}
    (h : r.mkCond test whenTrue whenFalse = .ok e) :
    e = .cond test whenTrue whenFalse whenTrue.ty := by
  unfold mkCond at h
  split at h
  · cases h
  · split at h
    · cases h
    · cases h
      rfl

theorem mkCall_eq_ok {target : Option Expr} {m : Method} {args : List Expr} {e : Expr}
    (h : r.mkCall target m args = .ok e) : e = .call target m args := by
  unfold mkCall at h
  split at h
  · cases h
  · split at h
    · cases h
    · simp only [Checked.bind_eq_ok, Checked.pure_eq_ok] at h
      obtain ⟨-, -, rfl⟩ := h
      rfl

theorem mkNew_eq_ok {ty : Ty} {inits : List (String × Expr)} {e : Expr}
    (h : r.mkNew ty inits = .ok e) : e = .new ty inits := by
  simp only [mkNew, Checked.bind_eq_ok, Checked.pure_eq_ok] at h
  obtain ⟨-, -, rfl⟩ := h
  rfl

theorem mkNewArray_eq_ok {element : Ty} {items : List Expr} {e : Expr}
    (h : r.mkNewArray element items = .ok e) : e = .newArray (.array element) items := by
  unfold mkNewArray at h
  split at h
  · cases h
  · cases h
    rfl

theorem mkInvoke_eq_ok {f : Expr} {args : List Expr} {e : Expr}
    (h : r.mkInvoke f args = .ok e) : ∃ t, e = .invoke f args t := by
  unfold mkInvoke at h
  split at h
  · cases h
  · split at h
    · cases h
      exact ⟨_, rfl⟩
    · cases h

theorem mkLambdaTyped_eq_ok {delegate : Ty} {params : List Parameter} {body e : Expr}
    (h : r.mkLambdaTyped delegate params body = .ok e) : ∃ t, e = .lambda params body t := by
  simp only [mkLambdaTyped] at h
  split at h
  · cases h
  · split at h
    · cases h
      exact ⟨_, rfl⟩
    · cases h

/-! ## The checks depend on types only -/

theorem mkLambdaTyped_congr {delegate t : Ty} {params : List Parameter} {body body' : Expr}
    (h : r.mkLambdaTyped delegate params body = .ok (.lambda params body t))
    (hty : body'.ty = body.ty) :
    r.mkLambdaTyped delegate params body' = .ok (.lambda params body' t) := by
  simp only [mkLambdaTyped] at h ⊢
  split at h
  · cases h
  · rename_i ps ret hsig
    rw [hty]
    split_ifs at h ⊢ with hfit
    simpa using h

theorem mkConversion_congr {op : UnaryOp} {operand operand' : Expr} {ty : Ty}
    (h : r.mkConversion op operand ty = .ok (.unary op operand ty))
    (hty : operand'.ty = operand.ty) :
    r.mkConversion op operand' ty = .ok (.unary op operand' ty) := by
  simp only [mkConversion, hty] at h ⊢
  grind

theorem mkUnary_congr {op : UnaryOp} {operand operand' : Expr} {t : Ty}
    (h : r.mkUnary op operand = .ok (.unary op operand t)) (hty : operand'.ty = operand.ty)
    (hop : op.isConversion = false) : r.mkUnary op operand' = .ok (.unary op operand' t) := by
  cases op with
  | convert => simp [UnaryOp.isConversion] at hop
  | convertChecked => simp [UnaryOp.isConversion] at hop
  | typeAs => simp [UnaryOp.isConversion] at hop
  | quote =>
      simp only [mkUnary, mkQuote, hty] at h ⊢
      grind
  | not | negate | arrayLength =>
      simp only [mkUnary, hty] at h ⊢
      split at h
      · simpa using h
      · cases h

theorem mkCond_congr {a b c a' b' c' : Expr} {t : Ty} (h : r.mkCond a b c = .ok (.cond a b c t))
    (ha : a'.ty = a.ty) (hb : b'.ty = b.ty) (hc : c'.ty = c.ty) :
    r.mkCond a' b' c' = .ok (.cond a' b' c' t) := by
  simp only [mkCond, ha, hb, hc] at h ⊢
  grind

theorem checkArguments_congr {m : Method} : ∀ {i : Nat} {params : List Ty} {args args' : List Expr},
    args'.map (·.ty) = args.map (·.ty) →
      r.checkArguments m i params args' = r.checkArguments m i params args
  | _, [], _, _, _ => rfl
  | _, _ :: _, [], [], _ => rfl
  | i, p :: params, a :: args, a' :: args', h => by
      simp only [List.map_cons, List.cons.injEq] at h
      rw [checkArguments, checkArguments, h.1, checkArguments_congr h.2]

theorem mkCall_congr {target target' : Option Expr} {m : Method} {args args' : List Expr}
    (h : r.mkCall target m args = .ok (.call target m args))
    (ht : target'.isSome = target.isSome) (ha : args'.map (·.ty) = args.map (·.ty)) :
    r.mkCall target' m args' = .ok (.call target' m args') := by
  have hlen : args'.length = args.length := by simpa using congrArg List.length ha
  unfold mkCall at h ⊢
  rw [ht, hlen, checkArguments_congr ha]
  split_ifs at h ⊢ with hinst hcount
  simp only [Checked.bind_eq_ok, Checked.pure_eq_ok] at h ⊢
  obtain ⟨u, hargs, -⟩ := h
  exact ⟨u, hargs, trivial⟩

theorem checkInits_congr {t : Ty} : ∀ {inits inits' : List (String × Expr)},
    inits'.map (fun i => (i.1, i.2.ty)) = inits.map (fun i => (i.1, i.2.ty)) →
      r.checkInits t inits' = r.checkInits t inits
  | [], [], _ => rfl
  | (n, e) :: inits, (n', e') :: inits', h => by
      simp only [List.map_cons, List.cons.injEq, Prod.mk.injEq] at h
      rw [checkInits, checkInits, h.1.1, h.1.2, checkInits_congr h.2]

theorem mkNew_congr {t : Ty} {inits inits' : List (String × Expr)}
    (h : r.mkNew t inits = .ok (.new t inits))
    (hi : inits'.map (fun i => (i.1, i.2.ty)) = inits.map (fun i => (i.1, i.2.ty))) :
    r.mkNew t inits' = .ok (.new t inits') := by
  simp only [mkNew, checkInits_congr hi, Checked.bind_eq_ok, Checked.pure_eq_ok] at h ⊢
  obtain ⟨u, hinits, -⟩ := h
  exact ⟨u, hinits, trivial⟩

theorem mkNewArray_congr {element t : Ty} {items items' : List Expr}
    (h : r.mkNewArray element items = .ok (.newArray t items))
    (hi : items'.map (·.ty) = items.map (·.ty)) :
    r.mkNewArray element items' = .ok (.newArray t items') := by
  have hnone : items.find? (fun e => !r.isAssignable e.ty element) = none := by
    unfold mkNewArray at h
    split at h
    · cases h
    · assumption
  have hnone' : items'.find? (fun e => !r.isAssignable e.ty element) = none := by
    have hsame : ∀ xs : List Expr,
        xs.find? (fun e => !r.isAssignable e.ty element) = none ↔
          ∀ t ∈ xs.map (·.ty), r.isAssignable t element = true := by simp
    rw [hsame] at hnone ⊢
    rwa [hi]
  simp only [mkNewArray, hnone, hnone'] at h ⊢
  simpa using h

theorem mkInvoke_congr {f f' : Expr} {args args' : List Expr} {t : Ty}
    (h : r.mkInvoke f args = .ok (.invoke f args t)) (hf : f'.ty = f.ty)
    (ha : args'.length = args.length) : r.mkInvoke f' args' = .ok (.invoke f' args' t) := by
  simp only [mkInvoke, hf, ha] at h ⊢
  split at h
  · cases h
  · split_ifs at h ⊢
    simpa using h

/-! ## Built nodes are well typed

Each constructor gives a well-typed node when its parts are well typed. -/

theorem mkMember_wellTyped {target e : Expr} {name : String}
    (h : r.mkMember target name = .ok e) (ht : r.WellTyped target) : r.WellTyped e := by
  obtain ⟨m, hm, rfl⟩ := mkMember_eq_ok.mp h
  refine wellTyped_iff.mpr ⟨nodeTyped_member.mpr ?_, by simpa [Expr.children] using ht⟩
  rw [name_of_member? hm]
  exact hm

theorem mkPath_wellTyped : ∀ {names : List String} {target e : Expr},
    r.mkPath target names = .ok e → r.WellTyped target → r.WellTyped e
  | [], _, _, h, ht => by
      cases h
      exact ht
  | name :: names, target, e, h, ht => by
      simp only [mkPath, Checked.bind_eq_ok] at h
      obtain ⟨next, hnext, hrest⟩ := h
      exact mkPath_wellTyped hrest (mkMember_wellTyped hnext ht)

theorem mkLambda_wellTyped {params : List Parameter} {body : Expr} (hb : r.WellTyped body) :
    r.WellTyped (mkLambda params body) :=
  wellTyped_iff.mpr ⟨.inl rfl, by simpa [mkLambda, Expr.children] using hb⟩

theorem mkLambdaTyped_wellTyped {delegate : Ty} {params : List Parameter} {body e : Expr}
    (h : r.mkLambdaTyped delegate params body = .ok e) (hb : r.WellTyped body) :
    r.WellTyped e := by
  obtain ⟨t, rfl⟩ := mkLambdaTyped_eq_ok h
  exact wellTyped_iff.mpr ⟨.inr ⟨delegate, h⟩, by simpa [Expr.children] using hb⟩

theorem mkConversion_wellTyped {op : UnaryOp} {operand e : Expr} {ty : Ty}
    (hop : op.isConversion = true) (h : r.mkConversion op operand ty = .ok e)
    (ho : r.WellTyped operand) : r.WellTyped e := by
  obtain rfl := mkConversion_eq_ok h
  refine wellTyped_iff.mpr ⟨?_, by simpa [Expr.children] using ho⟩
  rw [NodeTyped, if_pos hop]
  exact h

theorem mkConvert_wellTyped {operand e : Expr} {ty : Ty} (h : r.mkConvert operand ty = .ok e)
    (ho : r.WellTyped operand) : r.WellTyped e :=
  mkConversion_wellTyped rfl h ho

theorem mkUnary_wellTyped {op : UnaryOp} {operand e : Expr} (hop : op.isConversion = false)
    (h : r.mkUnary op operand = .ok e) (ho : r.WellTyped operand) : r.WellTyped e := by
  obtain ⟨t, rfl⟩ := mkUnary_eq_ok hop h
  refine wellTyped_iff.mpr ⟨?_, by simpa [Expr.children] using ho⟩
  rw [NodeTyped, if_neg (by simp [hop])]
  exact h

theorem mkQuote_wellTyped {lambda e : Expr} (h : r.mkQuote lambda = .ok e)
    (hl : r.WellTyped lambda) : r.WellTyped e :=
  mkUnary_wellTyped rfl (show r.mkUnary .quote lambda = .ok e from h) hl

theorem mkBinary_wellTyped {op : BinaryOp} {left right e : Expr} {conversion : Option Expr}
    (h : r.mkBinary op left right conversion = .ok e) (hl : r.WellTyped left)
    (hr : r.WellTyped right) (hc : ∀ c ∈ conversion, r.WellTyped c) : r.WellTyped e := by
  obtain ⟨t, -, rfl⟩ := mkBinary_eq_ok.mp h
  refine wellTyped_iff.mpr ⟨h, ?_⟩
  simp only [Expr.children, List.mem_cons, Option.mem_toList]
  rintro c (rfl | rfl | hmem)
  · exact hl
  · exact hr
  · exact hc c hmem

theorem mkCond_wellTyped {test whenTrue whenFalse e : Expr}
    (h : r.mkCond test whenTrue whenFalse = .ok e) (hc : r.WellTyped test)
    (ha : r.WellTyped whenTrue) (hb : r.WellTyped whenFalse) : r.WellTyped e := by
  obtain rfl := mkCond_eq_ok h
  refine wellTyped_iff.mpr ⟨h, ?_⟩
  simp only [Expr.children, List.mem_cons, List.not_mem_nil, or_false]
  rintro c (rfl | rfl | rfl)
  · exact hc
  · exact ha
  · exact hb

theorem mkCall_wellTyped {target : Option Expr} {m : Method} {args : List Expr} {e : Expr}
    (h : r.mkCall target m args = .ok e) (ht : ∀ t ∈ target, r.WellTyped t)
    (ha : ∀ a ∈ args, r.WellTyped a) : r.WellTyped e := by
  obtain rfl := mkCall_eq_ok h
  refine wellTyped_iff.mpr ⟨h, ?_⟩
  simp only [Expr.children, List.mem_append, Option.mem_toList]
  rintro c (hc | hc)
  · exact ht c hc
  · exact ha c hc

theorem mkNew_wellTyped {ty : Ty} {inits : List (String × Expr)} {e : Expr}
    (h : r.mkNew ty inits = .ok e) (hi : ∀ v ∈ inits.map (·.2), r.WellTyped v) :
    r.WellTyped e := by
  obtain rfl := mkNew_eq_ok h
  exact wellTyped_iff.mpr ⟨.inl h, hi⟩

theorem mkAnonymous_wellTyped {inits : List (String × Expr)}
    (hi : ∀ v ∈ inits.map (·.2), r.WellTyped v) : r.WellTyped (mkAnonymous inits) :=
  wellTyped_iff.mpr ⟨.inr rfl, hi⟩

theorem mkNewArray_wellTyped {element : Ty} {items : List Expr} {e : Expr}
    (h : r.mkNewArray element items = .ok e) (hi : ∀ v ∈ items, r.WellTyped v) :
    r.WellTyped e := by
  obtain rfl := mkNewArray_eq_ok h
  exact wellTyped_iff.mpr ⟨⟨element, h⟩, hi⟩

theorem mkTypeIs_wellTyped {operand : Expr} {tested : Ty} (ho : r.WellTyped operand) :
    r.WellTyped (mkTypeIs operand tested) :=
  wellTyped_iff.mpr ⟨rfl, by simpa [mkTypeIs, Expr.children] using ho⟩

theorem mkInvoke_wellTyped {f : Expr} {args : List Expr} {e : Expr}
    (h : r.mkInvoke f args = .ok e) (hf : r.WellTyped f) (ha : ∀ a ∈ args, r.WellTyped a) :
    r.WellTyped e := by
  obtain ⟨t, rfl⟩ := mkInvoke_eq_ok h
  refine wellTyped_iff.mpr ⟨h, ?_⟩
  simp only [Expr.children, List.mem_cons]
  rintro c (rfl | hc)
  · exact hf
  · exact ha c hc

/-! ## Substitution -/

/-- Putting an expression of the type of a parameter in its place keeps every check. -/
theorem NodeTyped.substitute {id : Nat} {x e : Expr} (he : r.NodeTyped e)
    (hnp : ∀ p, e ≠ .param p) (hc : ∀ c ∈ e.children, (Expr.substitute id x c).ty = c.ty) :
    r.NodeTyped (Expr.substitute id x e) := by
  cases e with
  | param p => exact absurd rfl (hnp p)
  | const v t => trivial
  | default t => trivial
  | member target m =>
      rw [Expr.substitute, nodeTyped_member, hc target (by simp [Expr.children])]
      exact nodeTyped_member.mp he
  | lambda params body t =>
      have hbody := hc body (by simp [Expr.children])
      rcases he with he | ⟨delegate, he⟩
      · refine .inl ?_
        simp only [mkLambda, Expr.lambda.injEq, true_and] at he
        rw [Expr.substitute, mkLambda, hbody, he]
      · exact .inr ⟨delegate, mkLambdaTyped_congr he hbody⟩
  | unary op operand t =>
      have hoperand := hc operand (by simp [Expr.children])
      rw [Expr.substitute]
      cases hop : op.isConversion with
      | true =>
          rw [NodeTyped, if_pos hop] at he ⊢
          exact mkConversion_congr he hoperand
      | false =>
          rw [NodeTyped, if_neg (by simp [hop])] at he ⊢
          exact mkUnary_congr he hoperand hop
  | binary op left right conversion t =>
      have hl := hc left (by simp [Expr.children])
      have hr := hc right (by simp [Expr.children])
      obtain ⟨t', ht', heq⟩ := mkBinary_eq_ok.mp he
      obtain rfl : t = t' := by simpa using heq
      cases conversion with
      | none => exact mkBinary_eq_ok.mpr ⟨t, by rw [hl, hr]; exact ht', rfl⟩
      | some c => exact mkBinary_eq_ok.mpr ⟨t, by rw [hl, hr]; exact ht', rfl⟩
  | cond test whenTrue whenFalse t =>
      exact mkCond_congr he (hc _ (by simp [Expr.children])) (hc _ (by simp [Expr.children]))
        (hc _ (by simp [Expr.children]))
  | call target m args =>
      have hargs : (args.map (Expr.substitute id x)).map (·.ty) = args.map (·.ty) := by
        rw [List.map_map]
        refine List.map_congr_left fun a ha => hc a ?_
        simp [Expr.children, ha]
      cases target with
      | none =>
          rw [Expr.substitute, Expr.substituteAll_eq]
          exact mkCall_congr he rfl hargs
      | some target =>
          rw [Expr.substitute, Expr.substituteAll_eq]
          exact mkCall_congr he rfl hargs
  | new t inits =>
      have hinits : (inits.map fun i => (i.1, Expr.substitute id x i.2)).map
          (fun i => (i.1, i.2.ty)) = inits.map fun i => (i.1, i.2.ty) := by
        rw [List.map_map]
        refine List.map_congr_left fun i hi => ?_
        simp only [Function.comp_apply, hc i.2 (List.mem_map_of_mem hi)]
      rw [Expr.substitute, Expr.substituteInits_eq]
      rcases he with he | he
      · exact .inl (mkNew_congr he hinits)
      · refine .inr ?_
        have hmembers : ∀ xs : List (String × Expr),
            xs.map (fun i => (⟨i.1, i.2.ty⟩ : Member)) =
              (xs.map fun i => (i.1, i.2.ty)).map fun i => ⟨i.1, i.2⟩ := by simp
        simp only [mkAnonymous, Expr.new.injEq, and_true] at he
        rw [mkAnonymous, ← he, hmembers, hinits, ← hmembers]
  | newArray t items =>
      obtain ⟨element, he⟩ := he
      have hitems : (items.map (Expr.substitute id x)).map (·.ty) = items.map (·.ty) := by
        rw [List.map_map]
        exact List.map_congr_left fun a ha => hc a ha
      rw [Expr.substitute, Expr.substituteAll_eq]
      exact ⟨element, mkNewArray_congr he hitems⟩
  | typeIs operand tested t =>
      simp only [NodeTyped, mkTypeIs, Expr.typeIs.injEq, true_and] at he
      simp only [Expr.substitute, NodeTyped, mkTypeIs, he]
  | invoke f args t =>
      rw [Expr.substitute, Expr.substituteAll_eq]
      exact mkInvoke_congr he (hc f (by simp [Expr.children])) (List.length_map _)

theorem WellTyped.substitute {id : Nat} {x : Expr} (hx : r.WellTyped x) (e : Expr) :
    r.WellTyped e → Expr.RefersAs id x.ty e → r.WellTyped (Expr.substitute id x e) := by
  induction e using Expr.induction_children with
  | step e ih =>
      intro he href
      by_cases hp : ∃ p, e = .param p
      · obtain ⟨p, rfl⟩ := hp
        by_cases hid : p.id = id
        · rwa [Expr.substitute, if_pos hid]
        · rwa [Expr.substitute, if_neg hid]
      · have hnp : ∀ p, e ≠ .param p := fun p hep => hp ⟨p, hep⟩
        refine wellTyped_iff.mpr
          ⟨he.node.substitute hnp fun c hc => Expr.ty_substitute (href.child hc), ?_⟩
        rw [Expr.children_substitute hnp]
        intro c' hc'
        obtain ⟨c, hc, rfl⟩ := List.mem_map.mp hc'
        exact ih c hc (he.child hc) (href.child hc)

end Registry

end Recast
