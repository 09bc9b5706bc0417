import Mathlib.Data.List.Perm.Subperm
import Recast.Proofs.EvalDepth
import Recast.Query.Rows
import Recast.Ty.Catalogue

/-! # Rows in memory and the evaluator

Filtering, sorting, taking, skipping and selecting rows is written twice: for rows in memory
(`Rows`), where each lambda is evaluated on its own, and for the sequence operators that the
evaluator applies within one evaluation.  Both come to the same rows and values, and to the
same error first (`RowQuery.evaluate_expr`).

- `Value.order?_swap` — sorting backwards is sorting by the opposite order.
- `EvalM.Gives` — what a computation within an evaluation comes to, unless it goes too deep.
- `RowOperator.call_gives` — the call of one operator, one case for each.
- `nest_standsFor` — any number of calls, one around the other.
-/

namespace Recast

/-! ## §1  The order of values -/

theorem Dyadic.order_swap (x y : Dyadic) : (x.order y).swap = y.order x := by
  unfold order
  rw [Int.min_comm y.q x.q]
  exact Int.compare_swap _ _

theorem Num.order_swap (x y : Num) : (x.order y).swap = y.order x := by
  unfold order
  cases x.toInt64? with
  | none =>
      cases y.toInt64? with
      | none => exact Dyadic.order_swap _ _
      | some n => exact Dyadic.order_swap _ _
  | some m =>
      cases y.toInt64? with
      | none => exact Dyadic.order_swap _ _
      | some n => exact Int.compare_swap m n

theorem LocalTime.order_swap (x y : LocalTime) : (x.order y).swap = y.order x := by
  unfold order
  rw [Ordering.swap_then]
  exact congr (congrArg Ordering.then Std.OrientedCmp.eq_swap.symm) Std.OrientedCmp.eq_swap.symm

/-- The other way round values compare the opposite way, or not either. -/
theorem Value.order?_swap (v w : Value) : (v.order? w).map Ordering.swap = w.order? v := by
  have hcompare : ∀ {α : Type} [Ord α] [Std.OrientedOrd α] (a b : α),
      some (compare a b).swap = some (compare b a) :=
    fun a b => congrArg some Std.OrientedCmp.eq_swap.symm
  cases v with
  | num a =>
      cases w with
      | num b => exact congrArg some (Num.order_swap a b)
      | _ => rfl
  | str a =>
      cases w with
      | str b => exact hcompare a b
      | _ => rfl
  | char a =>
      cases w with
      | char b => exact hcompare a.toNat b.toNat
      | _ => rfl
  | bool a =>
      cases w with
      | bool b => exact hcompare a.toNat b.toNat
      | _ => rfl
  | dateTime a =>
      cases w with
      | dateTime b => exact congrArg some (LocalTime.order_swap a b)
      | _ => rfl
  | dateTimeOffset a =>
      cases w with
      | dateTimeOffset b => exact congrArg some (LocalTime.order_swap a.instant b.instant)
      | _ => rfl
  | timeSpan a =>
      cases w with
      | timeSpan b => exact hcompare a.nanos b.nanos
      | _ => rfl
  | guid a =>
      cases w with
      | guid b => exact hcompare a.value b.value
      | _ => rfl
  | null | enum _ | record _ _ | list _ | lambda _ => cases w <;> rfl

/-- Keys of which the second is below the first compare as greater. -/
theorem keyBelow_swap (a b : Value × Value) : keyBelow b a = (a.1.order? b.1 == some .gt) := by
  unfold keyBelow
  rw [← Value.order?_swap]
  cases a.1.order? b.1 with
  | none => rfl
  | some o => cases o <;> rfl

theorem sortDescending_eq (keyed : List (Value × Value)) :
    sortDescending keyed = Rows.sorted true keyed := by
  have hbelow : (fun a b => keyBelow b a) =
      fun a b : Value × Value => a.1.order? b.1 == some .gt :=
    funext fun a => funext fun b => keyBelow_swap a b
  rw [sortDescending, hbelow]
  rfl

/-! ## §2  What a computation comes to -/

namespace EvalM

variable {α β : Type} {deep : Prop} {x : EvalM α} {y : Except EvalError α}

/-- From the empty environment the computation ends with the result and leaves it empty.  If
`deep`, it may go too deep instead. -/
def Gives (deep : Prop) (x : EvalM α) (y : Except EvalError α) : Prop :=
  x.run .empty = (y, .empty) ∨ deep ∧ (x.run .empty).1 = .error .tooDeep

theorem gives_pure (a : α) : Gives deep (pure a) (.ok a) := .inl rfl

theorem Gives.bind {f : α → EvalM β} {g : α → Except EvalError β} (h : Gives deep x y)
    (hf : ∀ a, y = .ok a → Gives deep (f a) (g a)) : Gives deep (x >>= f) (y >>= g) := by
  unfold Gives
  rw [run_bind]
  rcases h with hsame | ⟨hdeep, hfail⟩
  · rw [hsame]
    cases y with
    | error err => exact .inl rfl
    | ok a => exact hf a rfl
  · rcases hrun : x.run .empty with ⟨err | a, env⟩
    · rw [hrun] at hfail
      exact .inr ⟨hdeep, congrArg Except.error (Except.error.inj hfail)⟩
    · rw [hrun] at hfail
      cases hfail

theorem Gives.map (f : α → β) (h : Gives deep x y) : Gives deep (f <$> x) (y.map f) := by
  have hbind := h.bind fun a _ => gives_pure (f a)
  rw [map_eq_pure_bind]
  cases y with
  | error err => exact hbind
  | ok a => exact hbind

end EvalM

open EvalM

section Lambdas

variable (r : Registry)

/-- Following evaluation to the depth is enough to apply the lambda to the row. -/
def Registry.Within (n : Nat) (lambda : Expr) (row : Value) : Prop :=
  ((applyLambda (r.eval n) lambda [row]).run .empty).1 ≠ .error .tooDeep

/-- The predicate is a Boolean or null for the row, if it is anything. -/
def Registry.Decides (predicate : Expr) (row : Value) : Prop :=
  ∀ v, r.apply predicate [row] = .ok v → v = .null ∨ ∃ b, v = .bool b

variable {r} {deep : Prop} {n n' : Nat}

theorem Registry.Within.mono {lambda : Expr} {row : Value} (hle : n ≤ n')
    (h : r.Within n lambda row) : r.Within n' lambda row := by
  have hends := (applyLambda_deepens (r.eval_deepens hle) lambda [row]).ends .empty
  unfold Within
  rw [hends.resolve_left h]
  exact h

variable (hn : n ≤ Registry.evalDepth)
include hn

theorem applyValue_gives {lambda : Expr} {row : Value} (h : deep ∨ r.Within n lambda row) :
    Gives deep (applyValue (r.eval n) (.lambda lambda) [row]) (r.apply lambda [row]) := by
  rcases r.applyLambda_alone hn lambda [row] with hfail | hsame
  · exact .inr ⟨h.resolve_right fun hwithin => hwithin hfail, hfail⟩
  · exact .inl hsame

theorem selected_gives (selector : Expr) : ∀ items : List Value,
    (∀ row ∈ items, deep ∨ r.Within n selector row) →
      Gives deep (selected (r.eval n) (.lambda selector) items) (Rows.applyEach r selector items)
  | [], _ => gives_pure []
  | item :: items, h => by
      obtain ⟨hitem, hitems⟩ := List.forall_mem_cons.mp h
      exact (applyValue_gives hn hitem).bind fun v _ =>
        (selected_gives selector items hitems).bind fun vs _ => gives_pure (v :: vs)

theorem holds_gives {predicate : Expr} {row : Value} (hdecides : r.Decides predicate row)
    (h : deep ∨ r.Within n predicate row) :
    Gives deep (holds (r.eval n) (.lambda predicate) row)
      (r.apply predicate [row] >>= fun v => .ok (v.asBool? = some true)) := by
  refine (applyValue_gives hn h).bind fun v hv => ?_
  rcases hdecides v hv with rfl | ⟨b, rfl⟩
  · exact gives_pure false
  · cases b <;> exact gives_pure _

theorem keepHolding_gives (predicate : Expr) : ∀ items : List Value,
    (∀ row ∈ items, r.Decides predicate row) →
    (∀ row ∈ items, deep ∨ r.Within n predicate row) →
      Gives deep (keepHolding (r.eval n) (.lambda predicate) items)
        (Rows.keepTrue r predicate items)
  | [], _, _ => gives_pure []
  | item :: items, hdecides, h => by
      obtain ⟨hdecided, hdecides⟩ := List.forall_mem_cons.mp hdecides
      obtain ⟨hitem, hitems⟩ := List.forall_mem_cons.mp h
      -- In memory the value of the predicate is judged after the rows behind are kept.
      have hcons : Rows.keepTrue r predicate (item :: items) =
          ((r.apply predicate [item] >>= fun v => Except.ok (decide (v.asBool? = some true))) >>=
            fun keep => Rows.keepTrue r predicate items >>= fun kept =>
              .ok (if keep then item :: kept else kept)) := by
        rw [Rows.keepTrue]
        cases r.apply predicate [item] with
        | error err => rfl
        | ok v =>
            cases Rows.keepTrue r predicate items <;> simp [bind, Except.bind, pure, Except.pure]
      rw [hcons]
      exact (holds_gives hn hdecided hitem).bind fun keep _ =>
        (keepHolding_gives predicate items hdecides hitems).bind fun kept _ => gives_pure _

end Lambdas

/-! ## §3  Row operators -/

/-- A lambda of one parameter. -/
structure RowLambda where
  param : Parameter
  body : Expr
  ty : Ty

def RowLambda.expr (l : RowLambda) : Expr := .lambda [l.param] l.body l.ty

inductive RowOperator where
  | filter (predicate : RowLambda)
  | orderBy (key : RowLambda) (descending : Bool)
  | take (n : Nat)
  | skip (n : Nat)

/-- The rows that a change of rows ends with, or its failure. -/
def Rows.outcome : Option EvalError × Rows → Except EvalError Rows
  | (none, s) => .ok s
  | (some err, _) => .error err

theorem Rows.outcome_withRows (s : Rows) (rows : Except EvalError (List Value)) :
    outcome (s.withRows rows) = rows.map fun rows => { s with rows := rows } := by
  cases rows <;> rfl

namespace RowOperator

/-- The operator on rows in memory. -/
def run (r : Registry) (s : Rows) : RowOperator → Except EvalError Rows
  | filter predicate => Rows.outcome (s.filter r predicate.expr)
  | orderBy key descending => Rows.outcome (s.orderBy r key.expr descending)
  | take n => .ok (s.take n)
  | skip n => .ok (s.skip n)

/-- The sequence operator of the same meaning. -/
def methodName : RowOperator → String
  | filter _ => "Where"
  | orderBy _ false => "OrderBy"
  | orderBy _ true => "OrderByDescending"
  | take _ => "Take"
  | skip _ => "Skip"

/-- What the sequence operator takes after the sequence. -/
def argument : RowOperator → Expr
  | filter l | orderBy l _ => l.expr
  | take n | skip n => .const (.int n) .int32

def argumentValue : RowOperator → Value
  | filter l | orderBy l _ => .lambda l.expr
  | take n | skip n => .int n

def lambda? : RowOperator → Option RowLambda
  | filter l | orderBy l _ => some l
  | take _ | skip _ => none

/-- What an operator takes for granted of rows: its predicate decides them, its lambda gets by
with the depth unless `deep`, and they can be counted. -/
structure Fits (r : Registry) (deep : Prop) (n : Nat) (rows : List Value) (op : RowOperator) :
    Prop where
  decides : ∀ p, op = filter p → ∀ row ∈ rows, r.Decides p.expr row
  within : ∀ l, op.lambda? = some l → ∀ row ∈ rows, deep ∨ r.Within n l.expr row
  length_le : (rows.length : Int) ≤ int64Max

variable {r : Registry} {deep : Prop} {n n' : Nat} {s t : Rows} {op : RowOperator}

theorem run_filter (predicate : RowLambda) : (filter predicate).run r s =
    (Rows.keepTrue r predicate.expr s.rows).map fun rows => { s with rows := rows } :=
  Rows.outcome_withRows s _

theorem run_orderBy (key : RowLambda) (descending : Bool) : (orderBy key descending).run r s =
    (Rows.applyEach r key.expr s.rows).map fun keys =>
      { s with rows := Rows.sorted descending (keys.zip s.rows) } := by
  refine (Rows.outcome_withRows s _).trans ?_
  cases Rows.applyEach r key.expr s.rows <;> rfl

theorem Fits.mono {rows rows' : List Value} (h : op.Fits r deep n rows) (hrows : rows'.Subperm rows)
    (hle : deep ∨ n ≤ n') : op.Fits r deep n' rows' where
  decides p hp row hrow := h.decides p hp row (hrows.subset hrow)
  within l hl row hrow := by
    rcases hle with hdeep | hle
    · exact .inl hdeep
    · exact (h.within l hl row (hrows.subset hrow)).imp_right (·.mono hle)
  length_le := Int.le_trans (Int.ofNat_le.mpr hrows.length_le) h.length_le

/-! ### The rows after an operator are among those before it -/

theorem keepTrue_sublist {predicate : Expr} : ∀ {rows kept : List Value},
    Rows.keepTrue r predicate rows = .ok kept → kept.Sublist rows
  | [], kept, h => by
      obtain rfl := Except.ok.inj h
      exact .refl _
  | row :: rows, kept, h => by
      simp only [Rows.keepTrue, Checked.bind_eq_ok, Checked.pure_eq_ok] at h
      obtain ⟨v, -, rest, hrest, rfl⟩ := h
      have hsub := keepTrue_sublist hrest
      split
      · exact hsub.cons_cons row
      · exact hsub.cons row

theorem snd_zip_sublist : ∀ keys rows : List Value, ((keys.zip rows).map Prod.snd).Sublist rows
  | [], rows => List.nil_sublist rows
  | _ :: _, [] => .refl []
  | _ :: keys, row :: rows => (snd_zip_sublist keys rows).cons_cons row

theorem sorted_subperm (descending : Bool) (keys rows : List Value) :
    (Rows.sorted descending (keys.zip rows)).Subperm rows :=
  ((sortBy_perm _ _).map Prod.snd).subperm.trans (snd_zip_sublist keys rows).subperm

/-- By induction on a run of operators this is so of all the rows that it comes by. -/
theorem run_subperm (h : op.run r s = .ok t) : t.rows.Subperm s.rows := by
  cases op with
  | filter predicate =>
      rw [run_filter] at h
      obtain ⟨kept, hkept, rfl⟩ := Checked.map_eq_ok.mp h
      exact (keepTrue_sublist hkept).subperm
  | orderBy key descending =>
      rw [run_orderBy] at h
      obtain ⟨keys, -, rfl⟩ := Checked.map_eq_ok.mp h
      exact sorted_subperm descending keys s.rows
  | take n =>
      obtain rfl := Except.ok.inj h
      exact (List.take_sublist n s.rows).subperm
  | skip n =>
      obtain rfl := Except.ok.inj h
      exact (List.drop_sublist n s.rows).subperm

/-! ### The operator within an evaluation -/

/-- A count beyond the largest integer becomes that integer, which is all the rows too. -/
theorem toNat_asInt64 (n : Nat) : (Num.asInt64 (.int n)).toNat = min n int64Max.toNat := by
  simp only [Num.asInt64, clampInt64, int64Min, int64Max]
  omega

theorem call_gives (hn : n ≤ Registry.evalDepth) (h : op.Fits r deep n s.rows) :
    Gives deep (sequenceOperator (r.eval n) op.methodName s.rows (some op.argumentValue))
      ((op.run r s).map fun t => .list t.rows) := by
  have hcount : s.rows.length ≤ int64Max.toNat := Int.le_toNat (by decide) |>.mpr h.length_le
  cases op with
  | filter predicate =>
      have hrun : ((filter predicate).run r s).map (fun t => Value.list t.rows) =
          (Rows.keepTrue r predicate.expr s.rows).map Value.list := by
        rw [run_filter]
        cases Rows.keepTrue r predicate.expr s.rows <;> rfl
      rw [hrun]
      exact (keepHolding_gives hn predicate.expr s.rows (h.decides predicate rfl)
        (h.within predicate rfl)).map Value.list
  | orderBy key descending =>
      have hrun : ((orderBy key descending).run r s).map (fun t => Value.list t.rows) =
          (Rows.applyEach r key.expr s.rows).map fun keys =>
            Value.list (Rows.sorted descending (keys.zip s.rows)) := by
        rw [run_orderBy]
        cases Rows.applyEach r key.expr s.rows <;> rfl
      have hkeys := selected_gives hn key.expr s.rows (h.within key rfl)
      rw [hrun]
      cases descending with
      | false => exact hkeys.map fun keys => Value.list (sortAscending (keys.zip s.rows))
      | true =>
          simp only [← sortDescending_eq]
          exact hkeys.map fun keys => Value.list (sortDescending (keys.zip s.rows))
  | take n =>
      have htake : s.rows.take (Num.asInt64 (.int n)).toNat = s.rows.take n := by
        rw [toNat_asInt64, ← List.take_take, List.take_of_length_le hcount]
      exact .inl (congrArg (fun rows => (Except.ok (Value.list rows), (Scope.empty : Env))) htake)
  | skip n =>
      have hdrop : s.rows.drop (Num.asInt64 (.int n)).toNat = s.rows.drop n := by
        rw [toNat_asInt64]
        rcases Nat.le_total n int64Max.toNat with hle | hle
        · rw [Nat.min_eq_left hle]
        · rw [Nat.min_eq_right hle, List.drop_of_length_le hcount,
            List.drop_of_length_le (Nat.le_trans hcount hle)]
      exact .inl (congrArg (fun rows => (Except.ok (Value.list rows), (Scope.empty : Env))) hdrop)

end RowOperator

/-! ## §4  Queries of rows -/

/-- A call of the sequence operator of a row operator. -/
structure RowCall where
  operator : RowOperator
  method : Method
  declaring_eq : method.declaring = "Enumerable"
  name_eq : method.name = operator.methodName

/-- A call that selects from each row. -/
structure RowProjection where
  selector : RowLambda
  method : Method
  declaring_eq : method.declaring = "Enumerable"
  name_eq : method.name = "Select"

/-- A sequence of row operators, first things first, and a last projection if any. -/
structure RowQuery where
  calls : List RowCall
  projection? : Option RowProjection

/-- The calls nested around the rows. -/
def RowCall.nest : List RowCall → Expr → Expr
  | [], rows => rows
  | c :: cs, rows => nest cs (.call none c.method [rows, c.operator.argument])

/-- The operators one after the other, to the first failure. -/
def RowCall.runAll (r : Registry) : List RowCall → Rows → Except EvalError Rows
  | [], s => .ok s
  | c :: cs, s => c.operator.run r s >>= runAll r cs

theorem RowCall.runAll_subperm {r : Registry} : ∀ {calls : List RowCall} {s t : Rows},
    runAll r calls s = .ok t → t.rows.Subperm s.rows
  | [], s, t, h => by
      obtain rfl := Except.ok.inj h
      exact .refl _
  | c :: cs, s, t, h => by
      obtain ⟨next, hrun, hrest⟩ := Checked.bind_eq_ok.mp h
      exact (runAll_subperm hrest).trans (RowOperator.run_subperm hrun)

namespace RowQuery

/-- The query as one expression, over an expression for the rows. -/
def expr (q : RowQuery) (rows : Expr) : Expr :=
  match q.projection? with
  | none => RowCall.nest q.calls rows
  | some p => .call none p.method [RowCall.nest q.calls rows, p.selector.expr]

/-- The query on rows in memory: the selected values, or the rows without a projection. -/
def run (q : RowQuery) (r : Registry) (s : Rows) : Except EvalError (List Value) :=
  RowCall.runAll r q.calls s >>= fun t =>
    match q.projection? with
    | none => .ok t.rows
    | some p => t.valuesBy r p.selector.expr

def predicates (q : RowQuery) : List RowLambda :=
  q.calls.filterMap fun c => match c.operator with
    | .filter p => some p
    | _ => none

def lambdas (q : RowQuery) : List RowLambda :=
  q.calls.filterMap (·.operator.lambda?) ++ (q.projection?.map (·.selector)).toList

/-- Every lambda of the query gets by, on every row, with the depth that the nested calls leave. -/
def Shallow (q : RowQuery) (r : Registry) (rows : List Value) : Prop :=
  ∃ n, n + q.calls.length + 2 ≤ Registry.evalDepth ∧
    ∀ l ∈ q.lambdas, ∀ row ∈ rows, r.Within n l.expr row

end RowQuery

section Nested

variable {r : Registry} {deep : Prop} {floor : Nat}

/-- At every depth above the floor, and at the others if `deep`, the expression evaluates to the
result. -/
def StandsFor (r : Registry) (deep : Prop) (floor : Nat) (e : Expr) (y : Except EvalError Value) :
    Prop :=
  ∀ n ≤ Registry.evalDepth, (deep ∨ floor < n) → Gives deep (r.eval n e) y

theorem standsFor_of_evalNode {e : Expr} {v : Value}
    (h : ∀ self, r.evalNode self e = (pure v : EvalM Value)) :
    StandsFor r deep floor e (.ok v)
  | 0, _, hfloor => .inr ⟨hfloor.resolve_right (Nat.not_lt_zero _), rfl⟩
  | n + 1, _, _ => by
      show Gives deep (r.evalNode (r.eval n) e) (.ok v)
      rw [h]
      exact gives_pure v

theorem methodValue_enumerable (self : Expr → EvalM Value) {m : Method}
    (h : m.declaring = "Enumerable") (items : List Value) (v : Value) :
    methodValue self m none [.list items, v] = sequenceOperator self m.name items (some v) := by
  unfold methodValue
  rw [h]
  rfl

/-- A call whose sequence and argument are known stands for what its operator comes to. -/
theorem call_standsFor {e argument : Expr} {m : Method} {y : Except EvalError Rows} {v : Value}
    {z : Rows → Except EvalError Value} (hm : m.declaring = "Enumerable")
    (he : StandsFor r deep floor e (y.map fun t => .list t.rows))
    (hargument : StandsFor r deep floor argument (.ok v))
    (hop : ∀ n ≤ Registry.evalDepth, (deep ∨ floor < n) → ∀ t, y = .ok t →
      Gives deep (sequenceOperator (r.eval n) m.name t.rows (some v)) (z t)) :
    StandsFor r deep (floor + 1) (.call none m [e, argument]) (y >>= z)
  | 0, _, hfloor => .inr ⟨hfloor.resolve_right (Nat.not_lt_zero _), rfl⟩
  | n + 1, hn, hfloor => by
      have hn : n ≤ Registry.evalDepth := Nat.le_of_succ_le hn
      have hfloor : deep ∨ floor < n := hfloor.imp_right Nat.lt_of_succ_lt_succ
      have hcall : r.eval (n + 1) (.call none m [e, argument]) =
          (r.eval n e >>= fun s => r.eval n argument >>= fun a =>
            methodValue (r.eval n) m none [s, a]) := by
        show [e, argument].mapM (r.eval n) >>= methodValue (r.eval n) m none = _
        simp only [List.mapM_cons, List.mapM_nil, bind_assoc, pure_bind]
      rw [hcall]
      cases y with
      | error err =>
          exact (he n hn hfloor).bind (g := fun _ => .error err) fun s hs => by cases hs
      | ok t =>
          refine (he n hn hfloor).bind (g := fun _ => z t) fun s hs => ?_
          obtain rfl := Except.ok.inj hs
          refine (hargument n hn hfloor).bind (g := fun _ => z t) fun a ha => ?_
          obtain rfl := Except.ok.inj ha
          rw [methodValue_enumerable _ hm]
          exact hop n hn hfloor t rfl

theorem argument_standsFor (op : RowOperator) :
    StandsFor r deep floor op.argument (.ok op.argumentValue) := by
  cases op <;> exact standsFor_of_evalNode fun _ => rfl

theorem StandsFor.mono {floor' : Nat} {e : Expr} {y : Except EvalError Value}
    (h : StandsFor r deep floor e y) (hle : floor ≤ floor') : StandsFor r deep floor' e y :=
  fun n hn hfloor => h n hn (hfloor.imp_right (Nat.lt_of_le_of_lt hle))

/-- By induction on the calls: each is applied to rows that are among the first ones. -/
theorem nest_standsFor {rows : List Value} {base : Nat} :
    ∀ {calls : List RowCall} {floor : Nat} {e : Expr} {y : Except EvalError Rows},
      (∀ c ∈ calls, c.operator.Fits r deep base rows) → base ≤ floor →
      (∀ t, y = .ok t → t.rows.Subperm rows) →
      StandsFor r deep floor e (y.map fun t => .list t.rows) →
      StandsFor r deep (floor + calls.length) (RowCall.nest calls e)
        ((y >>= RowCall.runAll r calls).map fun t => .list t.rows)
  | [], _, _, y, _, _, _, he => by
      cases y <;> exact he
  | c :: cs, floor, e, y, hfits, hbase, hsub, he => by
      obtain ⟨hc, hcs⟩ := List.forall_mem_cons.mp hfits
      -- The rows so far are among the first ones and `base` is below the floor, so the operator
      -- may take for granted here what it does of the first rows.
      have hcall := call_standsFor c.declaring_eq he (argument_standsFor c.operator)
        (z := fun t => (c.operator.run r t).map fun t => .list t.rows) fun n hn hfloor t ht => by
          rw [c.name_eq]
          exact RowOperator.call_gives hn
            (hc.mono (hsub t ht) (hfloor.imp_right fun h => Nat.le_trans hbase (Nat.le_of_lt h)))
      have hnext : (y >>= fun t => (c.operator.run r t).map fun t => Value.list t.rows) =
          (y >>= fun t => c.operator.run r t).map fun t => .list t.rows := by
        cases y <;> rfl
      have hsubs : ∀ t, (y >>= fun t => c.operator.run r t) = .ok t → t.rows.Subperm rows := by
        intro t ht
        obtain ⟨s, hs, hrun⟩ := Checked.bind_eq_ok.mp ht
        exact (RowOperator.run_subperm hrun).trans (hsub s hs)
      have hall : (y >>= RowCall.runAll r (c :: cs)) =
          ((y >>= fun t => c.operator.run r t) >>= RowCall.runAll r cs) := by
        cases y <;> rfl
      rw [hnext] at hcall
      rw [hall, List.length_cons, Nat.add_comm cs.length, ← Nat.add_assoc]
      exact nest_standsFor hcs (Nat.le_succ_of_le hbase) hsubs hcall

end Nested

namespace RowQuery

variable {r : Registry} {q : RowQuery} {s : Rows} {ty : Ty}

theorem calls_fit {deep : Prop} {base : Nat} (hlength : (s.rows.length : Int) ≤ int64Max)
    (hdecides : ∀ p ∈ q.predicates, ∀ row ∈ s.rows, r.Decides p.expr row)
    (hwithin : ∀ l ∈ q.lambdas, ∀ row ∈ s.rows, deep ∨ r.Within base l.expr row) :
    ∀ c ∈ q.calls, c.operator.Fits r deep base s.rows := by
  intro c hc
  refine ⟨fun p hp => hdecides p ?_, fun l hl => hwithin l ?_, hlength⟩
  · exact List.mem_filterMap.mpr ⟨c, hc, by rw [hp]⟩
  · exact List.mem_append_left _ (List.mem_filterMap.mpr ⟨c, hc, hl⟩)

theorem expr_standsFor (deep : Prop) (base : Nat) (ty : Ty)
    (hlength : (s.rows.length : Int) ≤ int64Max)
    (hdecides : ∀ p ∈ q.predicates, ∀ row ∈ s.rows, r.Decides p.expr row)
    (hwithin : ∀ l ∈ q.lambdas, ∀ row ∈ s.rows, deep ∨ r.Within base l.expr row) :
    StandsFor r deep (base + q.calls.length + 1) (q.expr (.const (.list s.rows) ty))
      ((q.run r s).map Value.list) := by
  have hrows : StandsFor r deep base (.const (.list s.rows) ty) (.ok (.list s.rows)) :=
    standsFor_of_evalNode fun _ => rfl
  have hnest := nest_standsFor (y := .ok s) (calls_fit hlength hdecides hwithin) (Nat.le_refl base)
    (by rintro _ ⟨⟩; exact .refl _) hrows
  rcases q with ⟨calls, _ | p⟩
  · have hrun : ((RowQuery.mk calls none).run r s).map Value.list =
        (RowCall.runAll r calls s).map fun t => .list t.rows := by
      unfold run
      cases RowCall.runAll r calls s <;> rfl
    rw [hrun]
    exact hnest.mono (Nat.le_succ _)
  · have hselect := call_standsFor p.declaring_eq hnest
      (standsFor_of_evalNode (e := p.selector.expr) fun _ => rfl)
      (z := fun t => (t.valuesBy r p.selector.expr).map .list) fun n hn hfloor t ht => by
        rw [p.name_eq]
        refine (selected_gives hn p.selector.expr t.rows fun row hrow => ?_).map Value.list
        have hrow := (RowCall.runAll_subperm ht).subset hrow
        rcases hfloor with hdeep | hfloor
        · exact .inl hdeep
        · exact (hwithin p.selector (List.mem_append_right _ (List.mem_singleton_self _)) row
            hrow).imp_right (·.mono (by omega))
    have hrun : ((RowQuery.mk calls (some p)).run r s).map Value.list =
        (RowCall.runAll r calls s >>= fun t => (t.valuesBy r p.selector.expr).map .list) := by
      unfold run
      cases RowCall.runAll r calls s <;> rfl
    rw [hrun]
    exact hselect

/-- The result on rows in memory is the value of the query as one expression over the same rows,
and the first failure is the same, if the rows can be counted and the predicates are Booleans or
null.  Evaluation follows shallow lambdas to the end; of others the result is the same unless
evaluation reports that it went too deep. -/
theorem evaluate_expr (hlength : (s.rows.length : Int) ≤ int64Max)
    (hdecides : ∀ p ∈ q.predicates, ∀ row ∈ s.rows, r.Decides p.expr row)
    (hdeep : q.Shallow r s.rows ∨
      r.evaluate (q.expr (.const (.list s.rows) ty)) ≠ .error .tooDeep) :
    r.evaluate (q.expr (.const (.list s.rows) ty)) = (q.run r s).map Value.list := by
  -- Of shallow lambdas none may go too deep; of others each may, and then the value says so.
  rcases hdeep with ⟨n, hn, hwithin⟩ | hdeep
  · have hstands := expr_standsFor False n ty hlength hdecides fun l hl row hrow =>
      .inr (hwithin l hl row hrow)
    have hgives := (hstands Registry.evalDepth (Nat.le_refl _) (.inr hn)).resolve_right (·.1)
    exact congrArg Prod.fst hgives
  · have hstands := expr_standsFor True 0 ty hlength hdecides fun _ _ _ _ => .inl trivial
    have hgives := (hstands Registry.evalDepth (Nat.le_refl _) (.inl trivial)).resolve_right
      fun h => hdeep h.2
    exact congrArg Prod.fst hgives

/-! ### Numbers and a null, from high to low -/

namespace Numbers

def method (name : String) (typeArgs : List Ty) : Method :=
  (((Catalogue.sequenceOperators.find? (·.name == name)).bind
    (({} : Registry).closeMethod? · typeArgs)).getD default)

def n : Parameter := ⟨0, "n", .int32⟩

/-- `n => n < 4` -/
def belowFour : RowLambda :=
  ⟨n, .binary .lessThan (.param n) (.const (.int 4) .int32) none .boolean, .func [.int32] .boolean⟩

/-- `n => n` -/
def itself : RowLambda := ⟨n, .param n, .func [.int32] .int32⟩

/-- The numbers below four from high to low, less the first. -/
def query : RowQuery where
  calls := [
    ⟨.filter belowFour, method "Where" [.int32], rfl, rfl⟩,
    ⟨.orderBy itself true, method "OrderByDescending" [.int32, .int32], rfl, rfl⟩,
    ⟨.skip 1, method "Skip" [.int32], rfl, rfl⟩]
  projection? := some ⟨itself, method "Select" [.int32, .int32], rfl, rfl⟩

def rows : Rows := ⟨.int32, [.int 1, .int 7, .null, .int 3]⟩

end Numbers

open Numbers in
theorem evaluate_expr_numbers :
    Registry.evaluate {} (query.expr (.const (.list rows.rows) .object)) =
      .ok (.list [.int 1]) := by
  refine (evaluate_expr (s := rows) (by decide) ?_ (.inl ⟨3, by decide, ?_⟩)).trans rfl
  · intro p hp row hrow v hv
    obtain rfl := List.mem_singleton.mp hp
    simp only [rows, List.mem_cons, List.not_mem_nil, or_false] at hrow
    rcases hrow with rfl | rfl | rfl | rfl <;> obtain rfl := Except.ok.inj hv <;>
      exact .inr ⟨_, rfl⟩
  · intro l hl row hrow h
    have hl : l = belowFour ∨ l = itself := by
      simpa [lambdas, query, RowOperator.lambda?] using hl
    simp only [rows, List.mem_cons, List.not_mem_nil, or_false] at hrow
    rcases hl with rfl | rfl <;> rcases hrow with rfl | rfl | rfl | rfl <;> cases h

end RowQuery

end Recast
