import Recast.Proofs.Batch
import Recast.Proofs.TableGrowth
import Recast.Query.Model

/-! # What ran before an operator

The operators of a query share its table, so an operator finds registered what earlier ones
have registered.  Recasting its lambda ends as it does over a new query, well or not, if
that makes no difference to it (`ModelQuery.Unaffected`): the earlier operators registered
no other data type for a type that it registers, and none of the types that it looks up
without an entry, or with what these stood for.  As the rows are the same, so is what comes
out (`ModelQuery.outcome_afterHistory`).
-/

namespace Recast

/-! ## §1  Recasting with a pair of delegates -/

namespace Sharing

section Pair

variable {m : LambdaRecaster} {j : Sharing m.config}

theorem simulates_relateAll : ∀ pairs : List (Ty × Ty),
    j.Simulates (m.relateAll pairs) id (m.relateAll pairs)
  | [] => .pure rfl
  | (model, data) :: pairs =>
      .bind (simulates_relate model data) fun _ _ => simulates_relateAll pairs

theorem simulates_seedPair (p : TyPair) (arity : Nat) :
    j.Simulates (m.seedPair p arity) id (m.seedPair p arity) :=
  .bind .unchanged fun _ _ => .bind .unchanged fun _ _ =>
    .ite .throw (.ite .throw (simulates_relateAll _))

theorem simulates_clear :
    j.Simulates (modify RecastState.cleared : RecastM Unit) id (modify RecastState.cleared) := by
  refine .of_total (fun a => ⟨(), _, returns_modify.mpr rfl⟩) (fun h => ?_) fun h _ hab => ?_
  · obtain rfl := returns_modify.mp h
    exact ⟨List.prefix_refl _, List.Subset.refl _⟩
  · obtain rfl := returns_modify.mp h
    exact ⟨_, returns_modify.mpr rfl, { hab with replacements := rfl }⟩

/-- With a pair of delegates a recasting ends alike, well or not. -/
theorem simulates_recast {e : Expr} (p : TyPair) (asInclude : Bool) (he : j.Keeps e)
    (hcustoms : ∀ custom, m.config.IsCustom custom → j.Keeps custom) :
    j.Simulates (m.recast e (some p) asInclude) (Outcome.renumber j.number)
      (m.recast e (some p) asInclude) := by
  have hinner : j.Keeps (LambdaRecaster.unquoted e) := LambdaRecaster.within_unquoted he
  unfold LambdaRecaster.recast
  split
  · exact .throw
  · exact .bind (simulates_seedPair p _) fun _ _ => .bind simulates_clear fun _ _ =>
      .bind (recastWithin_simulates (w := ⟨m.config, m.mapper, m.options, asInclude⟩) hcustoms
        m.options.maxDepth _ hinner) fun o _ =>
        .checked (finish_renumber he (some p) o)

end Pair

/-! ### The same numbers -/

section Alike

variable {c : Configuration} {j : Sharing c}

/-- Both runs give new parameters the same numbers. -/
def Alike (j : Sharing c) : Prop := ∀ i, j.number i = i

theorem Alike.keeps (h : j.Alike) (e : Expr) : j.Keeps e := fun p _ => h p.id

theorem Alike.renumber (h : j.Alike) (o : Outcome) : o.renumber j.number = o := by
  cases o with
  | kept => rfl
  | made e => exact congrArg Outcome.made (h.keeps e).renumber

theorem alike_of_eq (hbound : j.bound = 0) (hshift : j.shift = 0) : j.Alike := by
  intro i
  rw [number, hbound, hshift]
  exact shifted_of_le (Nat.zero_le i)

theorem Alike.simulates_recast {m : LambdaRecaster} {j : Sharing m.config} (h : j.Alike) (e : Expr)
    (p : TyPair) (asInclude : Bool) :
    j.Simulates (m.recast e (some p) asInclude) (Outcome.renumber j.number)
      (m.recast e (some p) asInclude) :=
  Sharing.simulates_recast p asInclude (h.keeps e) fun custom _ => h.keeps custom

/-- A run without others. -/
def alone (c : Configuration) (final : RecastState) : Sharing c :=
  { final := final, others := {}, bound := 0, shift := 0, closed := c.closed_empty
    agrees := nofun
    foreseen := nofun }

theorem alone_alike (final : RecastState) : (alone c final).Alike := alike_of_eq rfl rfl

/-- Without others a state is next to itself. -/
theorem alone_alongside {final : RecastState} (a : RecastState) (ha : c.Closed a.table) :
    (alone c final).Alongside a.cleared a.cleared :=
  ⟨fun _ => Option.or_none.symm, ha, rfl, Nat.zero_le _, rfl⟩

end Alike

end Sharing

/-! ## §2  One operator -/

namespace LambdaRecaster

variable {m : LambdaRecaster} {e : Expr} {p : TyPair} {asInclude : Bool}

/-- A recasting that ends well leaves everything settled that its registrations imply. -/
theorem recast_closed {s s' : RecastState} {o : Outcome}
    (h : Returns (m.recast e (some p) asInclude) s o s') (hs : s.replacements = {})
    (hclosed : m.config.Closed s.table) : m.config.Closed s'.table := by
  have hstart : (Sharing.alone m.config s').Alongside s.cleared s.cleared :=
    Sharing.alone_alongside s hclosed
  have hcleared : s.cleared = s := by rw [RecastState.cleared, ← hs]
  rw [hcleared] at hstart
  obtain ⟨b, hb, hab⟩ :=
    ((Sharing.alone_alike s').simulates_recast e p asInclude).step h (.refl s') hstart
  rw [(Sharing.alone_alike s').renumber] at hb
  obtain ⟨-, rfl⟩ := Prod.mk.inj (h.symm.trans hb)
  exact hab.closed

end LambdaRecaster

namespace ModelQuery

variable {m : LambdaRecaster}

/-- The table makes no difference to the operator with the lambda: it has no other data type
for a type that the operator registers, and has those that it looks up without an entry,
if at all, with what they stand for. -/
structure Unaffected (m : LambdaRecaster) (q : ModelQuery) (table : TypeTable) (lambda : Expr)
    (fresh : Nat) : Prop where
  agrees : (q.recast m lambda fresh).state.table.Agrees table
  foreseen : table.Foreseen (q.recast m lambda fresh).state.resolved
  result : ∀ params body t, lambda.lambdaParts? = some (params, body, t) →
    table.Foreseen (q.table.resolutions m.types body.ty)

/-- The second query has come out of the first one. -/
structure Continues (m : LambdaRecaster) (q q' : ModelQuery) : Prop where
  model : q'.model = q.model
  element : q'.source.element = q.source.element
  entries : q.table.entries <+: q'.table.entries
  closed : m.config.Closed q'.table

variable {q q' : ModelQuery} {lambda : Expr} {fresh : Nat}

theorem Continues.refl (h : m.config.Closed q.table) : q.Continues m q :=
  ⟨rfl, rfl, List.prefix_refl _, h⟩

theorem Continues.trans {q'' : ModelQuery} (h : q.Continues m q') (h' : q'.Continues m q'') :
    q.Continues m q'' :=
  ⟨h'.model.trans h.model, h'.element.trans h.element, h.entries.trans h'.entries, h'.closed⟩

theorem Continues.withSource (h : q.Continues m q') {source : Rows}
    (hsource : source.element = q'.source.element) :
    q.Continues m { q' with source := source } :=
  ⟨h.model, hsource.trans h.element, h.entries, h.closed⟩

/-- The operator over the table of the first query. -/
theorem Continues.get?_eq (h : q.Continues m q') : q'.table.Merges q.table q'.table := by
  intro k
  cases hk : q.table.get? k with
  | none => rw [Option.none_or]
  | some d => rw [TypeTable.get?_mono h.entries hk, Option.some_or]

theorem recast_source : (q.recast m lambda fresh).query.source = q.source := by
  unfold recast
  split <;> rfl

/-- The delegates between which a lambda with the result type is recast. -/
def delegates (m : LambdaRecaster) (q : ModelQuery) (ret : Ty) : TyPair :=
  ⟨.func [q.model] ret, .func [q.source.element] (q.table.dataType m.types ret)⟩

/-- The state from which such a lambda is recast. -/
def initial (m : LambdaRecaster) (q : ModelQuery) (ret : Ty) (fresh : Nat) : RecastState :=
  { table := q.table, fresh := fresh, built := q.table.built m.types ret }

section Recast

variable {params : List Parameter} {body : Expr} {t : Ty}
  (hparts : lambda.lambdaParts? = some (params, body, t))
include hparts

theorem recast_result : (q.recast m lambda fresh).result =
    ((m.recast lambda (some (q.delegates m body.ty)) false).run (q.initial m body.ty fresh)).1.map
      fun o => (o.on lambda, body.ty, q.table.dataType m.types body.ty) := by
  unfold recast
  rw [hparts]
  rfl

theorem recast_state : (q.recast m lambda fresh).state =
    ((m.recast lambda (some (q.delegates m body.ty)) false).run (q.initial m body.ty fresh)).2 := by
  unfold recast
  rw [hparts]
  rfl

theorem recast_query : (q.recast m lambda fresh).query =
    { q with table := (q.recast m lambda fresh).state.table } := by
  unfold recast
  rw [hparts]
  rfl

end Recast

/-- A lambda is recast alike, well or not. -/
theorem Continues.recast_alike (h : q.Continues m q')
    (hunaffected : q.Unaffected m q'.table lambda fresh) :
    (q'.recast m lambda fresh).result = (q.recast m lambda fresh).result := by
  obtain ⟨hagrees, hforeseen, hret⟩ := hunaffected
  cases hparts : lambda.lambdaParts? with
  | none => simp only [recast, hparts]
  | some parts =>
      obtain ⟨params, body, t⟩ := parts
      have hdata : q'.table.dataType m.types body.ty = q.table.dataType m.types body.ty :=
        h.get?_eq.dataType body.ty (hret params body t hparts)
      rw [recast_state hparts] at hagrees hforeseen
      let j : Sharing m.config :=
        { final := _, others := q'.table, bound := 0, shift := 0, closed := h.closed,
          agrees := hagrees, foreseen := hforeseen }
      have hj : j.Alike := Sharing.alike_of_eq rfl rfl
      have hstart : j.Alongside (q.initial m body.ty fresh) (q'.initial m body.ty fresh) :=
        ⟨h.get?_eq, h.closed, rfl, Nat.zero_le _, rfl⟩
      have hresult :=
        (hj.simulates_recast lambda (q.delegates m body.ty) false).result (.refl _) hstart
      have hsame : Outcome.renumber j.number = id := funext hj.renumber
      have hdelegates : q'.delegates m body.ty = q.delegates m body.ty := by
        rw [delegates, delegates, h.model, h.element, hdata]
      rw [hsame, Except.map_id, id] at hresult
      rw [recast_result hparts, recast_result hparts, hdelegates, hresult, hdata]

/-- A recast lambda leads on. -/
theorem recast_continues {r : Expr × Ty × Ty} (hclosed : m.config.Closed q.table)
    (h : (q.recast m lambda fresh).result = .ok r) :
    q.Continues m (q.recast m lambda fresh).query := by
  cases hparts : lambda.lambdaParts? with
  | none =>
      simp only [recast, hparts] at h
      cases h
  | some parts =>
      obtain ⟨params, body, t⟩ := parts
      rw [recast_result hparts] at h
      obtain ⟨o, ho, -⟩ := Checked.map_eq_ok.mp h
      rw [recast_query hparts, recast_state hparts]
      have hgrows := m.recast_grows lambda (some (q.delegates m body.ty)) false
        (q.initial m body.ty fresh)
      exact ⟨rfl, rfl, hgrows.entries,
        LambdaRecaster.recast_closed (returns_of_run ho) rfl hclosed⟩

/-! ## §3  Operators one after another -/

/-- What can be done to the rows of a query.  New parameters of a lambda are numbered from `fresh`. -/
inductive Operator where
  | filter (predicate : Expr) (fresh : Nat)
  | orderBy (key : Expr) (descending : Bool) (fresh : Nat)
  | take (n : Nat)
  | skip (n : Nat)

def apply (m : LambdaRecaster) (q : ModelQuery) : Operator → Checked ModelQuery
  | .filter predicate fresh =>
    let step := q.filter m predicate fresh
    step.result.map fun _ => step.query
  | .orderBy key descending fresh =>
    let step := q.orderBy m key descending fresh
    step.result.map fun _ => step.query
  | .take n => .ok (q.take n)
  | .skip n => .ok (q.skip n)

/-- Operators as long as they succeed. -/
def applyAll (m : LambdaRecaster) (q : ModelQuery) : List Operator → Checked ModelQuery
  | [] => .ok q
  | op :: ops => do
    let q' ← q.apply m op
    applyAll m q' ops

/-- What the last call on a query is for: other rows, or values selected from them. -/
inductive Ending where
  | change (op : Operator)
  | select (selector : Expr) (fresh : Nat)

/-- What comes out: the rows, or the selected values. -/
def outcome (m : LambdaRecaster) (q : ModelQuery) : Ending → Checked (List Value)
  | .change op => (q.apply m op).map fun q' => q'.source.rows
  | .select selector fresh => (q.select m selector fresh).result

/-- The lambda that is recast, and the number from which new parameters are numbered. -/
def Ending.lambda? : Ending → Option (Expr × Nat)
  | .change (.filter predicate fresh) => some (predicate, fresh)
  | .change (.orderBy key _ fresh) => some (key, fresh)
  | .change (.take _) => none
  | .change (.skip _) => none
  | .select selector fresh => some (selector, fresh)

section Change

variable {f : Rows → Expr → Option EvalError × Rows}
  (hf : ∀ rows e, (f rows e).2.element = rows.element)

theorem change_eq : q.change m lambda fresh f =
    match (q.recast m lambda fresh).result with
    | .error e => ⟨.error e, (q.recast m lambda fresh).query, (q.recast m lambda fresh).state⟩
    | .ok r =>
      ⟨match (f q.source r.1).1 with
        | some e => .error (.eval e)
        | none => .ok (),
        { (q.recast m lambda fresh).query with source := (f q.source r.1).2 },
        (q.recast m lambda fresh).state⟩ := by
  unfold change
  dsimp only
  rw [recast_source]
  cases (q.recast m lambda fresh).result <;> rfl

include hf in
theorem change_continues {u : Unit} (hclosed : m.config.Closed q.table)
    (h : (q.change m lambda fresh f).result = .ok u) :
    q.Continues m (q.change m lambda fresh f).query := by
  rw [change_eq] at h ⊢
  cases hresult : (q.recast m lambda fresh).result with
  | error e =>
      rw [hresult] at h
      cases h
  | ok r =>
      refine (recast_continues hclosed hresult).withSource ?_
      rw [recast_source]
      exact hf q.source r.1

/-- The same lambda changes the same rows. -/
theorem Continues.change_alike (h : q.Continues m q') (hrows : q'.source = q.source)
    (hunaffected : q.Unaffected m q'.table lambda fresh) :
    (q'.change m lambda fresh f).result = (q.change m lambda fresh f).result ∧
      (q'.change m lambda fresh f).query.source = (q.change m lambda fresh f).query.source := by
  rw [change_eq, change_eq, h.recast_alike hunaffected, hrows]
  cases (q.recast m lambda fresh).result with
  | error e => exact ⟨rfl, by rw [recast_source, recast_source, hrows]⟩
  | ok r => exact ⟨rfl, rfl⟩

end Change

theorem element_withRows (rows : Rows) (result : Except EvalError (List Value)) :
    (rows.withRows result).2.element = rows.element := by
  cases result <;> rfl

/-- An operator that succeeds leads on. -/
theorem apply_continues {op : Operator} (hclosed : m.config.Closed q.table)
    (h : q.apply m op = .ok q') : q.Continues m q' := by
  cases op with
  | filter predicate fresh =>
      obtain ⟨u, hresult, rfl⟩ := Checked.map_eq_ok.mp h
      exact change_continues (fun rows e => element_withRows rows _) hclosed hresult
  | orderBy key descending fresh =>
      obtain ⟨u, hresult, rfl⟩ := Checked.map_eq_ok.mp h
      exact change_continues (fun rows e => element_withRows rows _) hclosed hresult
  | take n =>
      cases h
      exact (Continues.refl hclosed).withSource rfl
  | skip n =>
      cases h
      exact (Continues.refl hclosed).withSource rfl

theorem applyAll_continues : ∀ {ops : List Operator} {q q' : ModelQuery},
    m.config.Closed q.table → q.applyAll m ops = .ok q' → q.Continues m q'
  | [], q, q', hclosed, h => by
      obtain rfl := Except.ok.inj h
      exact .refl hclosed
  | op :: ops, q, q', hclosed, h => by
      obtain ⟨q₁, hfirst, hrest⟩ := Checked.bind_eq_ok.mp h
      have hstep := apply_continues hclosed hfirst
      exact hstep.trans (applyAll_continues hstep.closed hrest)

/-- The rows that an operator with a lambda leaves. -/
theorem Continues.rows_alike (h : q.Continues m q') (hrows : q'.source = q.source)
    (hunaffected : q.Unaffected m q'.table lambda fresh) (f : Rows → Expr → Option EvalError × Rows) :
    (((q'.change m lambda fresh f).result.map fun _ => (q'.change m lambda fresh f).query).map
        fun q => q.source.rows) =
      ((q.change m lambda fresh f).result.map fun _ => (q.change m lambda fresh f).query).map
        fun q => q.source.rows := by
  obtain ⟨hresult, hsource⟩ := h.change_alike (f := f) hrows hunaffected
  rw [hresult]
  cases (q.change m lambda fresh f).result with
  | error e => rfl
  | ok u => exact congrArg (fun source : Rows => Except.ok source.rows) hsource

/-- What comes out over the same rows, if the table makes no difference to the operator. -/
theorem Continues.outcome_alike (h : q.Continues m q') (hrows : q'.source = q.source) {last : Ending}
    (hunaffected : ∀ lambda fresh, last.lambda? = some (lambda, fresh) →
      q.Unaffected m q'.table lambda fresh) : q'.outcome m last = q.outcome m last := by
  cases last with
  | change op =>
      cases op with
      | filter predicate fresh => exact h.rows_alike hrows (hunaffected predicate fresh rfl) _
      | orderBy key descending fresh => exact h.rows_alike hrows (hunaffected key fresh rfl) _
      | take n => exact congrArg (fun source : Rows => Except.ok (source.take n).rows) hrows
      | skip n => exact congrArg (fun source : Rows => Except.ok (source.skip n).rows) hrows
  | select selector fresh =>
      show (q'.select m selector fresh).result = (q.select m selector fresh).result
      unfold select
      dsimp only
      rw [h.recast_alike (hunaffected selector fresh rfl), recast_source, recast_source, hrows]

/-- A query over other rows. -/
def onRows (q : ModelQuery) (source : Rows) : ModelQuery := { q with source := source }

/-- After operators that succeed, an operator leads to what it leads to on a new query over the
rows that they left, be it a failure, if the table that they left makes no difference to it. -/
theorem outcome_afterHistory {model : Ty} {source : Rows} {first q : ModelQuery} {ops : List Operator}
    (hstart : start m model source = .ok first) (hops : first.applyAll m ops = .ok q) {last : Ending}
    (hunaffected : ∀ lambda fresh, last.lambda? = some (lambda, fresh) →
      (first.onRows q.source).Unaffected m q.table lambda fresh) :
    start m model q.source = .ok (first.onRows q.source) ∧
      q.outcome m last = (first.onRows q.source).outcome m last := by
  have hfirst : first.model = model ∧ first.source = source ∧
      Returns (m.config.relate model source.element) {} () first.table := by
    unfold start at hstart
    split at hstart
    · rename_i u table hrun
      cases hstart
      exact ⟨rfl, rfl, hrun⟩
    · cases hstart
  obtain ⟨rfl, rfl, hrelate⟩ := hfirst
  have hclosed := Configuration.relate_closed hrelate m.config.closed_empty
  have hcontinues := applyAll_continues hclosed hops
  constructor
  · unfold start
    rw [hcontinues.element, hrelate]
    rfl
  · have hsame : (first.onRows q.source).Continues m q :=
      ⟨hcontinues.model, rfl, hcontinues.entries, hcontinues.closed⟩
    exact hsame.outcome_alike rfl hunaffected

/-! ### A query for orders -/

section Orders

open LambdaRecaster LambdaRecaster.Orders

/-- An order whose note is `x`. -/
def notedX : Rows := ⟨order, [.record order [("Note", .str "x")]]⟩

def ordersNotedX : List Operator := [.filter isX 3, .take 5]

/-- The table of an operator that registers nothing new, and does not look the model up before. -/
theorem unaffected_orders {q : ModelQuery} {lambda : Expr} {fresh : Nat}
    (hq : q.table = ⟨[(Orders.model, order)]⟩)
    (htable : (q.recast recaster lambda fresh).state.table = ⟨[(Orders.model, order)]⟩)
    (hresolved : ∀ p ∈ (q.recast recaster lambda fresh).state.resolved, p.1 ≠ Orders.model)
    (hresult : ∀ params body t, lambda.lambdaParts? = some (params, body, t) → body.ty = .string) :
    q.Unaffected recaster ⟨[(Orders.model, order)]⟩ lambda fresh where
  agrees k d d' hd hd' := by
    rw [htable, hd'] at hd
    exact (Option.some.inj hd).symm
  foreseen p hp d hd := by
    obtain ⟨hmodel, -⟩ := Prod.mk.inj (List.mem_singleton.mp (TypeTable.mem_of_get? hd))
    exact absurd hmodel (hresolved p hp)
  result params body t hparts p hp d hd := by
    rw [hresult params body t hparts, hq] at hp
    obtain ⟨hmodel, -⟩ := Prod.mk.inj (List.mem_singleton.mp (TypeTable.mem_of_get? hd))
    obtain rfl := List.mem_singleton.mp hp
    cases hmodel

theorem outcome_afterHistory_orders :
    ∃ first q, start recaster Orders.model notedX = .ok first ∧
      first.applyAll recaster ordersNotedX = .ok q ∧
      start recaster Orders.model q.source = .ok (first.onRows q.source) ∧
      q.outcome recaster (.select readLabel 3) =
        (first.onRows q.source).outcome recaster (.select readLabel 3) := by
  have hstart : start recaster Orders.model notedX =
      .ok ⟨Orders.model, notedX, ⟨[(Orders.model, order)]⟩⟩ := rfl
  have hops : applyAll recaster ⟨Orders.model, notedX, ⟨[(Orders.model, order)]⟩⟩ ordersNotedX =
      .ok ⟨Orders.model, notedX, ⟨[(Orders.model, order)]⟩⟩ := rfl
  refine ⟨_, _, hstart, hops, outcome_afterHistory hstart hops ?_⟩
  rintro lambda fresh hlambda
  cases hlambda
  refine unaffected_orders rfl (congrArg TypeTable.mk (by decide +kernel)) (by decide +kernel) ?_
  rintro params body t hparts
  cases hparts
  rfl

end Orders

/-! ### Operators that depend on what ran before -/

/-- What comes out after the operators does not come out on a new query over their rows. -/
def Depends (m : LambdaRecaster) (model : Ty) (source : Rows) (ops : List Operator) (last : Ending) :
    Prop :=
  ∃ first q new, start m model source = .ok first ∧ first.applyAll m ops = .ok q ∧
    start m model q.source = .ok new ∧ q.outcome m last ≠ new.outcome m last

/-- Outcomes differ if one of them is a failure, or if they are of different length. -/
theorem depends_of_length {m : LambdaRecaster} {model : Ty} {source : Rows} {ops : List Operator}
    {last : Ending} {first q new : ModelQuery} (hfirst : start m model source = .ok first)
    (hops : first.applyAll m ops = .ok q) (hnew : start m model q.source = .ok new)
    (hlength : (q.outcome m last).toOption.map List.length ≠
      (new.outcome m last).toOption.map List.length) : Depends m model source ops last :=
  ⟨first, q, new, hfirst, hops, hnew, ne_of_apply_ne (·.toOption.map List.length) hlength⟩

namespace Statuses

def status : Ty := .declared 0

def order : Ty := .declared 1

def model : Ty := .declared 2

def stored : Member := ⟨"Status", .string⟩

def storedOld : Member := ⟨"Old", .int32⟩

def current : Member := ⟨"Status", status⟩

def old : Member := ⟨"Old", status⟩

def registry : Registry :=
  { declarations :=
      [.enumeration "Status" ["Pending", "Shipped"], .record "Order" none [stored, storedOld],
        .record "OrderModel" none [current, old]] }

/-- A status is stored as its name, the one before as its number. -/
def mapping : Mapping :=
  { source := order, destination := model,
    rules := [{ member := current, source := [stored] }, { member := old, source := [storedOld] }] }

def recaster : LambdaRecaster := .ofConfig ⟨registry, [mapping]⟩ {}

def o : Parameter := ⟨0, "o", model⟩

def read (m : Member) : Expr := .member (.param o) m

def equal (left right : Expr) : Expr :=
  Registry.mkLambda [o] (.binary .equal left right none .boolean)

def shippedOrder : Rows := ⟨order, [.record order [("Status", .str "Shipped"), ("Old", .int 1)]]⟩

/-- The query for the order, with more entries in its table. -/
def query (more : List (Ty × Ty)) : ModelQuery :=
  { model := model, source := shippedOrder, table := ⟨(model, order) :: more⟩ }

/-- `o => o.Status is String`, which relates a status to its name. -/
def isText : Expr := Registry.mkLambda [o] (.typeIs (read current) .string .boolean)

/-- `o => o.Status` -/
def readStatus : Expr := Registry.mkLambda [o] (read current)

/-- `o => default(Status) == Pending` -/
def isDefault : Expr := equal (.default status) (.const (.enum "Pending") status)

/-- `o => o.Old == Shipped` -/
def wasShipped : Expr := equal (read old) (.const (.enum "Shipped") status)

end Statuses

open Statuses in
/-- An earlier operator makes a difference to the type that is selected, to a type that is looked
up without an entry, and to one that stands for different types. -/
theorem outcome_afterHistory_fails :
    Depends recaster Statuses.model shippedOrder [.filter isText 1] (.select readStatus 1) ∧
      Depends recaster Statuses.model shippedOrder [.filter isText 1]
        (.change (.filter isDefault 1)) ∧
      Depends recaster Statuses.model shippedOrder [.filter isText 1]
        (.change (.filter wasShipped 1)) := by
  have hstart : start recaster Statuses.model shippedOrder = .ok (query []) := rfl
  have hops :
      (query []).applyAll recaster [.filter isText 1] = .ok (query [(status, .string)]) := rfl
  refine ⟨depends_of_length hstart hops hstart ?_, depends_of_length hstart hops hstart ?_,
    depends_of_length hstart hops hstart ?_⟩
  · -- Only the earlier operator has related a status to its name, which is selected.
    decide +kernel
  · -- The default of a string is not the name of the default status.
    decide +kernel
  · -- A number is compared with a name.
    decide +kernel

end ModelQuery

end Recast
