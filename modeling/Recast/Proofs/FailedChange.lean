import Recast.Proofs.RowQueries

/-! # Changes of rows that fail

Filtering and sorting take the rows out of the collection, apply a lambda to one after the other
and put back what they make of them.  Where the lambda fails on a row nothing is put back, so that
the change fails with the error of the first such row and the rows are gone, those before it and
those behind it too.

- `Rows.FailsFirst` — the row that decides the failure.
- `RowChange.run_failed_iff` — when a change fails, and what is left.
- `RowChange.runAll_none` — no later change fails or brings a row back.
-/

namespace Recast

/-! ## §1  Lambdas that fail on a row -/

namespace Rows

/-- The lambda fails with the error on some row, and on none before it. -/
def FailsFirst (r : Registry) (lambda : Expr) (rows : List Value) (err : EvalError) : Prop :=
  ∃ before row after, rows = before ++ row :: after ∧
    (∀ first ∈ before, ∃ v, r.apply lambda [first] = .ok v) ∧ r.apply lambda [row] = .error err

variable {r : Registry} {lambda : Expr} {row : Value} {rows : List Value} {err : EvalError}

theorem FailsFirst.ne_nil (h : FailsFirst r lambda rows err) : rows ≠ [] := by
  obtain ⟨before, row, after, rfl, -⟩ := h
  simp

theorem failsFirst_cons : FailsFirst r lambda (row :: rows) err ↔
    r.apply lambda [row] = .error err ∨
      (∃ v, r.apply lambda [row] = .ok v) ∧ FailsFirst r lambda rows err := by
  constructor
  · rintro ⟨before, failed, after, hrows, hbefore, hfailed⟩
    rcases before with _ | ⟨first, before⟩
    · obtain ⟨rfl, -⟩ := List.cons.inj hrows
      exact .inl hfailed
    · obtain ⟨rfl, hrest⟩ := List.cons.inj hrows
      obtain ⟨hfirst, hbefore⟩ := List.forall_mem_cons.mp hbefore
      exact .inr ⟨hfirst, before, failed, after, hrest, hbefore, hfailed⟩
  · rintro (hfailed | ⟨hrow, before, failed, after, rfl, hbefore, hfailed⟩)
    · exact ⟨[], row, rows, rfl, by simp, hfailed⟩
    · exact ⟨row :: before, failed, after, rfl, List.forall_mem_cons.mpr ⟨hrow, hbefore⟩, hfailed⟩

theorem applyEach_eq_error_iff : applyEach r lambda rows = .error err ↔
    FailsFirst r lambda rows err := by
  induction rows with
  | nil => exact iff_of_false nofun fun h => h.ne_nil rfl
  | cons row rows ih =>
      -- Of the first row and the others, the first one decides if it fails.
      rw [failsFirst_cons, ← ih, applyEach]
      cases r.apply lambda [row] with
      | error err' => simp [bind, Except.bind]
      | ok v => cases applyEach r lambda rows <;> simp [bind, Except.bind, pure, Except.pure]

/-- Filtering is applying the predicate to every row and keeping those that it is true of. -/
theorem keepTrue_eq : keepTrue r lambda rows = (applyEach r lambda rows).map fun vs =>
    ((vs.zip rows).filter fun p => p.1.asBool? = some true).map (·.2) := by
  induction rows with
  | nil => rfl
  | cons row rows ih =>
      rw [keepTrue, applyEach, ih]
      cases r.apply lambda [row] with
      | error err => rfl
      | ok v =>
          cases applyEach r lambda rows with
          | error err => rfl
          | ok vs =>
              simp only [bind, Except.bind, pure, Except.pure, Except.map, List.zip_cons_cons,
                List.filter_cons, decide_eq_true_eq]
              split <;> rfl

theorem keepTrue_eq_error_iff : keepTrue r lambda rows = .error err ↔
    FailsFirst r lambda rows err := by
  rw [keepTrue_eq, ← applyEach_eq_error_iff]
  cases applyEach r lambda rows <;> simp [Except.map]

theorem withRows_eq_failed_iff {s t : Rows} {rows : Except EvalError (List Value)} :
    s.withRows rows = (some err, t) ↔ rows = .error err ∧ t = { s with rows := [] } := by
  cases rows <;> simp [withRows, eq_comm]

end Rows

/-! ## §2  Changes -/

/-- A change of rows in memory, by any lambda. -/
inductive RowChange where
  | filter (predicate : Expr)
  | orderBy (key : Expr) (descending : Bool)
  | take (n : Nat)
  | skip (n : Nat)

namespace RowChange

/-- The lambda that the change applies to the rows. -/
def lambda? : RowChange → Option Expr
  | filter l | orderBy l _ => some l
  | take _ | skip _ => none

def run (r : Registry) (s : Rows) : RowChange → Option EvalError × Rows
  | filter predicate => s.filter r predicate
  | orderBy key descending => s.orderBy r key descending
  | take n => (none, s.take n)
  | skip n => (none, s.skip n)

/-- Changes one after the other, also after failures, with the failures on the way. -/
def runAll (r : Registry) : List RowChange → Rows → List EvalError × Rows
  | [], s => ([], s)
  | c :: cs, s =>
    let (failure, s) := c.run r s
    let (failures, s) := runAll r cs s
    (failure.toList ++ failures, s)

variable {r : Registry} {c : RowChange} {s t : Rows} {err : EvalError}

/-- Without rows no lambda is applied. -/
theorem run_none (h : s.rows = []) : c.run r s = (none, s) := by
  obtain ⟨element, rows⟩ := s
  obtain rfl : rows = [] := h
  cases c with
  | filter predicate => rfl
  | orderBy key descending => rfl
  | take n => simp [run, Rows.take]
  | skip n => simp [run, Rows.skip]

/-- By induction on the changes nothing is left to change. -/
theorem runAll_none (h : s.rows = []) : ∀ cs : List RowChange, runAll r cs s = ([], s)
  | [] => rfl
  | c :: cs => by
      rw [runAll, run_none h]
      dsimp only
      rw [runAll_none h cs]
      rfl

theorem run_eq_failed_iff : c.run r s = (some err, t) ↔
    (∃ lambda, c.lambda? = some lambda ∧ Rows.FailsFirst r lambda s.rows err) ∧
      t = { s with rows := [] } := by
  cases c with
  | filter predicate =>
      simp [run, lambda?, Rows.filter, Rows.withRows_eq_failed_iff, Rows.keepTrue_eq_error_iff]
  | orderBy key descending =>
      have hkeys : (Rows.applyEach r key s.rows).map
            (fun keys => Rows.sorted descending (keys.zip s.rows)) = .error err ↔
          Rows.FailsFirst r key s.rows err := by
        rw [← Rows.applyEach_eq_error_iff]
        cases Rows.applyEach r key s.rows <;> simp [Except.map]
      simp [run, lambda?, Rows.orderBy, Rows.withRows_eq_failed_iff, hkeys]
  | take n => simp [run, lambda?]
  | skip n => simp [run, lambda?]

/-- **A change that fails leaves no rows.**  It fails exactly if its lambda fails on some row, with
the error of the first one, and then none of the rows is left, though there was one at least; nor
does any later change fail, or bring one back. -/
theorem run_failed_iff :
    (c.run r s = (some err, t) ↔
      (∃ lambda, c.lambda? = some lambda ∧ Rows.FailsFirst r lambda s.rows err) ∧
        t = { s with rows := [] }) ∧
    (c.run r s = (some err, t) → t.rows ≠ s.rows ∧ ∀ cs, runAll r cs t = ([], t)) := by
  refine ⟨run_eq_failed_iff, fun h => ?_⟩
  obtain ⟨⟨lambda, -, hfails⟩, rfl⟩ := run_eq_failed_iff.mp h
  exact ⟨hfails.ne_nil.symm, runAll_none rfl⟩

/-! ### Shares of six -/

namespace Shares

def x : Parameter := ⟨0, "x", .int32⟩

/-- `x => 6 / x` -/
def share : Expr :=
  .lambda [x] (.binary .divide (.const (.int 6) .int32) (.param x) none .int32)
    (.func [.int32] .int32)

/-- `x => 6 / x == 3` -/
def isThree : Expr :=
  .lambda [x] (.binary .equal
    (.binary .divide (.const (.int 6) .int32) (.param x) none .int32)
    (.const (.int 3) .int32) none .boolean) (.func [.int32] .boolean)

def rows : Rows := ⟨.int32, [.int 1, .int 0, .int 2]⟩

end Shares

open Shares in
/-- Sorting by the shares fails on the zero between the others, and they are gone with it. -/
theorem run_failed_iff_shares :
    (orderBy share false).run {} rows = (some (.arithmetic "/"), ⟨.int32, []⟩) ∧
      Rows.FailsFirst {} share rows.rows (.arithmetic "/") ∧
      runAll {} [filter isThree, take 2] ⟨.int32, []⟩ = ([], ⟨.int32, []⟩) := by
  have hrun : (orderBy share false).run {} rows = (some (.arithmetic "/"), ⟨.int32, []⟩) := rfl
  obtain ⟨hiff, hgone⟩ := @run_failed_iff {} (orderBy share false) rows ⟨.int32, []⟩
    (.arithmetic "/")
  obtain ⟨⟨lambda, hlambda, hfails⟩, -⟩ := hiff.mp hrun
  obtain rfl := Option.some.inj hlambda
  exact ⟨hrun, hfails, (hgone hrun).2 _⟩

open Shares in
/-- Neither a filter nor a sort that fails leaves the rows as they were. -/
theorem run_failed_intact_fails :
    (¬ ∀ (r : Registry) (predicate : Expr) (s t : Rows) (err : EvalError),
      (filter predicate).run r s = (some err, t) → t.rows = s.rows) ∧
    ¬ ∀ (r : Registry) (key : Expr) (descending : Bool) (s t : Rows) (err : EvalError),
      (orderBy key descending).run r s = (some err, t) → t.rows = s.rows := by
  constructor
  · intro h
    cases h {} isThree rows ⟨.int32, []⟩ (.arithmetic "/") rfl
  · intro h
    cases h {} share false rows ⟨.int32, []⟩ (.arithmetic "/") rfl

end RowChange

end Recast
