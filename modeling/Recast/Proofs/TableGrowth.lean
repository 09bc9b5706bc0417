import Recast.Proofs.Progress
import Recast.Proofs.Registration
import Recast.Recaster.Lambda

/-! # A table over its whole life

A table is shared by registrations, member paths and lambdas.  Each of these calls
may fail half way, and what it has registered by then stays.

`TypeTable.Grows` is respected by every step of each of them, whatever its result:
the entries that were there stay in their places, a model type is never
registered twice, and no type is registered for itself
(`Configuration.firstRegistrationWins`).
-/

namespace Recast

/-! ## §1  Registrations and paths -/

namespace Configuration

variable (c : Configuration)

theorem growsProgress : Progress TypeTable.Grows := ⟨TypeTable.Grows.refl, TypeTable.Grows.trans⟩

theorem relate_grows (model data : Ty) : Evolves TypeTable.Grows (c.relate model data) :=
  fun t => (c.drains_relate model data t).grows

theorem advance_grows (fullPath : String) (model data : Ty) (name : String) (rest : List String) :
    Evolves TypeTable.Grows (c.advance fullPath model data name rest) := by
  refine .ite ?_ (growsProgress.checkedTable _)
  exact growsProgress.bind (growsProgress.checkedTable _) fun _ =>
    growsProgress.bind (growsProgress.checkedTable _) fun _ =>
      growsProgress.bind (c.relate_grows _ _) fun _ => growsProgress.pure _

theorem followPath_grows (limit : Nat) (fullPath : String) :
    ∀ budget model data path steps,
      Evolves TypeTable.Grows (c.followPath limit fullPath budget model data path steps)
  | 0, _, _, [], _ => growsProgress.pure _
  | _ + 1, _, _, [], _ => growsProgress.pure _
  | 0, _, _, _ :: _, _ => growsProgress.throw _
  | budget + 1, model, data, name :: rest, steps => by
      refine .ite ?_ ?_
      · exact growsProgress.bind (growsProgress.checkedTable _) fun _ => growsProgress.pure _
      · exact growsProgress.bind (c.advance_grows _ _ _ _ _) fun _ => followPath_grows _ _ _ _ _ _ _

theorem dataPath_grows (model data : Ty) (path : List String) (limit : Nat) :
    Evolves TypeTable.Grows (c.dataPath model data path limit) :=
  c.followPath_grows _ _ _ _ _ _ _

end Configuration

/-! ## §2  Recasting -/

/-- The table of a state grows. -/
def RecastState.Grows (s s' : RecastState) : Prop := s.table.Grows s'.table

/-- Only registrations and paths touch the table. -/
theorem Recaster.respects_grows (w : Recaster) :
    w.Respects (fun _ => True) RecastState.Grows where
  refl s := .refl s.table
  trans := TypeTable.Grows.trans
  dataType _ s := .refl s.table
  relate model data := evolves_onTable (w.config.relate_grows model data) fun _ _ h => h
  dataPath model data path limit :=
    evolves_onTable (w.config.dataPath_grows model data path limit) fun _ _ h => h
  noteBuilt _ s := .refl s.table
  replace _ _ s := .refl s.table

theorem LambdaRecaster.recast_grows (m : LambdaRecaster) (e : Expr) (pair : Option TyPair)
    (asInclude : Bool) : Evolves RecastState.Grows (m.recast e pair asInclude) :=
  LambdaRecaster.evolves_recast (Recaster.respects_grows _) (fun s => .refl s.table) e
    (fun _ _ => trivial) pair

/-! ## §3  Calls that share a table -/

/-- A use of a table that is handed in. -/
inductive TableCall where
  | relate (model data : Ty)
  | dataPath (model data : Ty) (path : List String) (limit : Nat)
  /-- Recasting of a lambda; `fresh` is the number of its first new parameter. -/
  | recast (mapper : ValueMapping) (options : RecastOptions) (e : Expr) (pair : Option TyPair)
      (asInclude : Bool) (fresh : Nat)

namespace Configuration

variable (c : Configuration)

/-- The table that a call leaves behind, whether it succeeds or fails. -/
def after (t : TypeTable) : TableCall → TypeTable
  | .relate model data => ((c.relate model data).run t).2
  | .dataPath model data path limit => ((c.dataPath model data path limit).run t).2
  | .recast mapper options e pair asInclude fresh =>
    let m : LambdaRecaster := ⟨c, mapper, options⟩
    ((m.recast e pair asInclude).run { table := t, fresh := fresh }).2.table

/-- The table that calls leave behind, one after the other. -/
def afterAll (calls : List TableCall) : TypeTable := calls.foldl c.after {}

theorem after_grows (t : TypeTable) : ∀ call, t.Grows (c.after t call)
  | .relate model data => c.relate_grows model data t
  | .dataPath model data path limit => c.dataPath_grows model data path limit t
  | .recast mapper options e pair asInclude fresh =>
    LambdaRecaster.recast_grows ⟨c, mapper, options⟩ e pair asInclude { table := t, fresh := fresh }

theorem foldl_after_grows : ∀ (calls : List TableCall) (t : TypeTable),
    t.Grows (calls.foldl c.after t)
  | [], t => .refl t
  | call :: calls, t => (c.after_grows t call).trans (foldl_after_grows calls (c.after t call))

theorem afterAll_wellFormed (calls : List TableCall) : (c.afterAll calls).WellFormed :=
  (c.foldl_after_grows calls {}).wellFormed TypeTable.wellFormed_empty

/-- The first registration wins: a further call keeps all entries in their places, every model
type has one data type, and none has itself. -/
theorem firstRegistrationWins (calls : List TableCall) (call : TableCall) :
    (c.afterAll calls).entries <+: (c.after (c.afterAll calls) call).entries ∧
      (c.afterAll calls).WellFormed ∧ (c.after (c.afterAll calls) call).WellFormed := by
  have hgrows := c.after_grows (c.afterAll calls) call
  have hbefore := c.afterAll_wellFormed calls
  exact ⟨hgrows.entries, hbefore, hgrows.wellFormed hbefore⟩

end Configuration

end Recast
