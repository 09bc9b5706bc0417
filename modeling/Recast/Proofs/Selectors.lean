import Recast.Proofs.KeyOrder
import Recast.Proofs.Run

/-! # Selectors

A sequence operator with a selector applies it to one item after the other.  Where the selector
answers every item, what the operator makes of the items is a function of them and of the
answers, in which no evaluation is left.

- `Registry.SelectorCall` — a call whose selector answers every item.
- `returns_selected`, `run_sumFrom`, `returns_extreme` — the loops over the items.
- `Registry.SelectorCall.run_sum`, `run_orderBy`, `run_extreme` — what the calls evaluate to.
-/

namespace Recast

/-! ## §1  Loops over the items -/

/-- The sum of integers, from a total on, if every partial sum is in signed range. -/
def sumWithin (total : Int) : List Int → Option Int
  | [] => some total
  | n :: ns => if inInt64 (total + n) then sumWithin (total + n) ns else none

/-- The better of two values: the first stays unless the other one goes before it. -/
def better (descending : Bool) (best v : Value) : Value :=
  if v.goesBefore descending best then v else best

/-- The first value, or what it gives way to. -/
def bestOf (descending : Bool) : List Value → Option Value
  | [] => none
  | v :: vs => some (vs.foldl (better descending) v)

section Loops

variable {self : Expr → EvalM Value} {f : Value} {items : List Value} {key : Value → Value}
  {env : Env} (hf : ∀ item ∈ items, Returns (applyValue self f [item]) env (key item) env)
include hf

theorem returns_selected : Returns (selected self f items) env (items.map key) env := by
  induction items with
  | nil => exact returns_pure.mpr ⟨rfl, rfl⟩
  | cons item items ih =>
      obtain ⟨hitem, hitems⟩ := List.forall_mem_cons.mp hf
      exact returns_bind.mpr ⟨_, _, hitem, returns_bind.mpr ⟨_, _, ih hitems,
        returns_pure.mpr ⟨rfl, rfl⟩⟩⟩

/-- Values that are no integers count as zero. -/
theorem run_sumFrom (total : Int) : (sumFrom self f total items).run env =
    ((sumWithin total (items.map fun item => (key item).asInt64?.getD 0)).elim
      (.error (.arithmetic "Sum")) .ok, env) := by
  induction items generalizing total with
  | nil => rfl
  | cons item items ih =>
      obtain ⟨hitem, hitems⟩ := List.forall_mem_cons.mp hf
      have hrun : (applyValue self f [item]).run env = (.ok (key item), env) := hitem
      rw [sumFrom, run_bind, hrun, List.map_cons, sumWithin]
      dsimp only
      split
      · exact ih hitems _
      · rfl

theorem returns_extremeFrom (descending : Bool) (best : Value) :
    Returns (extremeFrom self f (Value.before descending) (some best) items) env
      (some ((items.map key).foldl (better descending) best)) env := by
  induction items generalizing best with
  | nil => exact returns_pure.mpr ⟨rfl, rfl⟩
  | cons item items ih =>
      obtain ⟨hitem, hitems⟩ := List.forall_mem_cons.mp hf
      exact returns_bind.mpr ⟨_, _, hitem, ih hitems (better descending best (key item))⟩

theorem returns_extreme (descending : Bool) :
    Returns (extremeFrom self f (Value.before descending) none items) env
      (bestOf descending (items.map key)) env := by
  cases items with
  | nil => exact returns_pure.mpr ⟨rfl, rfl⟩
  | cons item items =>
      obtain ⟨hitem, hitems⟩ := List.forall_mem_cons.mp hf
      exact returns_bind.mpr ⟨_, _, hitem, returns_extremeFrom hitems descending _⟩

end Loops

/-! ## §2  Calls -/

namespace Registry

/-- The call of a sequence operator by its name whose sequence evaluates to the items and whose
selector evaluates to a function that answers each item with its key. -/
inductive SelectorCall (r : Registry) (n : Nat) (env : Env) (name : String) (items : List Value)
    (key : Value → Value) : Expr → Prop where
  | call {m : Method} {source selector : Expr} {f : Value}
      (declaring : (m.declaring == "Enumerable" || m.declaring == "Queryable") = true)
      (name_eq : m.name = name)
      (source_returns : Returns (r.eval n source) env (.list items) env)
      (selector_returns : Returns (r.eval n selector) env f env)
      (answers : ∀ item ∈ items, Returns (applyValue (r.eval n) f [item]) env (key item) env) :
      SelectorCall r n env name items key (.call none m [source, selector])

variable {r : Registry} {n : Nat} {env : Env} {name : String} {items : List Value}
  {key : Value → Value} {call : Expr}

theorem SelectorCall.run_eq (h : r.SelectorCall n env name items key call) :
    ∃ f, (∀ item ∈ items, Returns (applyValue (r.eval n) f [item]) env (key item) env) ∧
      (r.eval (n + 1) call).run env =
        (sequenceOperator (r.eval n) name items (some f)).run env := by
  obtain @⟨m, source, selector, f, hm, rfl, hsource, hselector, hf⟩ := h
  refine ⟨f, hf, ?_⟩
  have hargs : Returns ([source, selector].mapM (r.eval n)) env [.list items, f] env := by
    simp only [List.mapM_cons, List.mapM_nil]
    exact returns_bind.mpr ⟨_, _, hsource, returns_bind.mpr ⟨_, _, returns_bind.mpr
      ⟨_, _, hselector, returns_bind.mpr ⟨_, _, returns_pure.mpr ⟨rfl, rfl⟩,
        returns_pure.mpr ⟨rfl, rfl⟩⟩⟩, returns_pure.mpr ⟨rfl, rfl⟩⟩⟩
  have hmethod : methodValue (r.eval n) m none [.list items, f] =
      sequenceOperator (r.eval n) m.name items (some f) := by
    rw [methodValue, if_pos hm]
    rfl
  have hrun : ([source, selector].mapM (r.eval n)).run env = (.ok [.list items, f], env) := hargs
  show ([source, selector].mapM (r.eval n) >>= methodValue (r.eval n) m none).run env = _
  rw [run_bind, hrun]
  exact congrArg (fun x : EvalM Value => x.run env) hmethod

/-- A sum is in signed range, as is every partial sum. -/
theorem SelectorCall.run_sum (h : r.SelectorCall n env "Sum" items key call) :
    (r.eval (n + 1) call).run env =
      ((sumWithin 0 (items.map fun item => (key item).asInt64?.getD 0)).elim
        (.error (.arithmetic "Sum")) fun m => .ok (.int m), env) := by
  obtain ⟨f, hf, hrun⟩ := h.run_eq
  rw [hrun]
  show (Value.int <$> sumFrom (r.eval n) f 0 items).run env = _
  rw [map_eq_pure_bind, run_bind, run_sumFrom hf 0]
  cases sumWithin 0 (items.map fun item => (key item).asInt64?.getD 0) <;> rfl

/-- The operator that sorts by ascending or descending keys. -/
def orderName (descending : Bool) : String :=
  if descending then "OrderByDescending" else "OrderBy"

theorem SelectorCall.run_orderBy {descending : Bool}
    (h : r.SelectorCall n env (orderName descending) items key call) :
    (r.eval (n + 1) call).run env =
      (.ok (.list ((if descending then sortDescending else sortAscending)
        ((items.map key).zip items))), env) := by
  obtain ⟨f, hf, hrun⟩ := h.run_eq
  rw [hrun]
  cases descending with
  | false => exact returns_map.mpr ⟨_, returns_selected hf, rfl⟩
  | true => exact returns_map.mpr ⟨_, returns_selected hf, rfl⟩

/-- The operator for the value that goes before all others. -/
def extremeName (descending : Bool) : String := if descending then "Max" else "Min"

/-- Without items there is no extreme value. -/
theorem SelectorCall.run_extreme {descending : Bool}
    (h : r.SelectorCall n env (extremeName descending) items key call) :
    (r.eval (n + 1) call).run env =
      ((bestOf descending (items.map key)).elim (.error .emptySequence) .ok, env) := by
  obtain ⟨f, hf, hrun⟩ := h.run_eq
  have hbest : (extremeFrom (r.eval n) f (Value.before descending) none items).run env =
      (.ok (bestOf descending (items.map key)), env) := returns_extreme hf descending
  obtain ⟨answer, hoperator, hsome, hnone⟩ : ∃ answer : Option Value → EvalM Value,
      sequenceOperator (r.eval n) (extremeName descending) items (some f) =
        extremeFrom (r.eval n) f (Value.before descending) none items >>= answer ∧
      (∀ v, answer (some v) = pure v) ∧ answer none = throw .emptySequence := by
    cases descending <;> exact ⟨_, rfl, fun _ => rfl, rfl⟩
  rw [hrun, hoperator, run_bind, hbest]
  cases bestOf descending (items.map key) with
  | none => exact congrArg (fun x : EvalM Value => x.run env) hnone
  | some v => exact congrArg (fun x : EvalM Value => x.run env) (hsome v)

end Registry

/-! ### Ages, some of which are not known -/

namespace Ages

def age : Parameter := ⟨0, "age", .nullable .int32⟩

/-- `age => age` -/
def itself : Expr := .lambda [age] (.param age) (.func [.nullable .int32] (.nullable .int32))

/-- The operator over the ages, each taken by itself. -/
def call (m : Method) (ages : List Value) : Expr :=
  .call none m [.const (.list ages) (.seq .list (.nullable .int32)), itself]

theorem call_selects (r : Registry) (n : Nat) (env : Env) {m : Method} (ages : List Value)
    (hm : (m.declaring == "Enumerable" || m.declaring == "Queryable") = true) :
    r.SelectorCall (n + 1) env m.name ages id (call m ages) := by
  refine .call hm rfl rfl rfl fun item _ => ?_
  show (Except.ok item, (env.push [(0, item)]).pop) = (Except.ok item, env)
  rw [Scope.pop_push]

end Ages

end Recast
