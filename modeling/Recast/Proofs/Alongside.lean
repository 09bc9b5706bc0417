import Recast.Proofs.Binding
import Recast.Proofs.Renumbering
import Recast.Proofs.SharedTable

/-! # Recasting alongside others

A recasting over a table of its own ends alike over the table of others, with the same result
or the same failure, if the others agree with what it registers and looks up
(`Sharing`).  New parameters only have other numbers: those from a bound on are moved up.

- `Sharing.Alongside` — the states of the two runs next to each other.
- `Sharing.Simulates` — the one computation ends as the other does.
- `Sharing.recastWithin_simulates` — recasting to any depth, by one lemma for each kind of
  node.
-/

namespace Recast

/-! ## §1  Numbers and replacements -/

/-- Numbers from `n` on are moved up by `k`. -/
def shifted (n k i : Nat) : Nat := if i < n then i else i + k

section Shifted

variable {n k i : Nat}

theorem shifted_of_lt (h : i < n) : shifted n k i = i := if_pos h

theorem shifted_of_le (h : n ≤ i) : shifted n k i = i + k := if_neg (Nat.not_lt.mpr h)

theorem shifted_injective (n k : Nat) : Function.Injective (shifted n k) := by
  intro i i' h
  unfold shifted at h
  split at h <;> split at h <;> omega

end Shifted

namespace Replacements

def renumber (f : Nat → Nat) (b : Replacements) : Replacements :=
  ⟨b.entries.map fun e => (e.1, e.2.renumber f)⟩

theorem get?_renumber (f : Nat → Nat) (b : Replacements) (p : Parameter) :
    (b.renumber f).get? p = (b.get? p).map (·.renumber f) := by
  obtain ⟨entries⟩ := b
  simp only [renumber, get?]
  induction entries with
  | nil => rfl
  | cons e entries ih =>
      obtain ⟨id, q⟩ := e
      rw [List.map_cons, List.lookup_cons, List.lookup_cons]
      cases p.id == id with
      | true => rfl
      | false => exact ih

theorem renumber_cons (f : Nat → Nat) (b : Replacements) (id : Nat) (q : Parameter) :
    renumber f ⟨(id, q) :: b.entries⟩ = ⟨(id, q.renumber f) :: (b.renumber f).entries⟩ := rfl

/-- A replacement among renumbered ones, for a parameter whose number stays. -/
theorem replace_renumber {f : Nat → Nat} {b b' : Replacements} {p p' : Parameter} {data : Ty}
    {fresh fresh' k : Nat} (h : b.replace p data fresh = (p', b', fresh')) (hp : f p.id = p.id)
    (hfresh : f fresh = fresh + k) :
    (b.renumber f).replace p data (fresh + k) = (p'.renumber f, b'.renumber f, fresh' + k) := by
  rcases replace_cases h with ⟨hold, rfl, rfl⟩ | ⟨hnone, rfl, ⟨hdata, rfl, rfl⟩ | ⟨hdata, rfl, rfl⟩⟩
  · simp only [replace, get?_renumber, hold, Option.map_some]
  · have hsame : p'.renumber f = p' := by rw [Parameter.renumber, hp]
    simp only [replace, get?_renumber, hnone, Option.map_none, if_pos hdata, renumber_cons, hsame]
  · simp only [replace, get?_renumber, hnone, Option.map_none, if_neg hdata, renumber_cons,
      Parameter.renumber, hfresh, Nat.add_right_comm]

end Replacements

namespace Outcome

def renumber (f : Nat → Nat) : Outcome → Outcome
  | kept => kept
  | made e => made (e.renumber f)

@[simp] theorem isKept_renumber (f : Nat → Nat) (o : Outcome) : (o.renumber f).isKept = o.isKept := by
  cases o <;> rfl

/-- On an expression whose numbers stay. -/
theorem on_renumber {f : Nat → Nat} {e : Expr} (he : e.renumber f = e) (o : Outcome) :
    (o.renumber f).on e = (o.on e).renumber f := by
  cases o with
  | kept => exact he.symm
  | made e' => rfl

end Outcome

/-! ## §2  Two runs next to each other -/

/-- The state is further on in the same run. -/
structure RecastState.Later (s s' : RecastState) : Prop where
  entries : s.table.entries <+: s'.table.entries
  resolved : s.resolved ⊆ s'.resolved

theorem RecastState.Later.refl (s : RecastState) : s.Later s :=
  ⟨List.prefix_refl _, List.Subset.refl _⟩

theorem RecastState.Later.trans {s s' s'' : RecastState} (h : s.Later s') (h' : s'.Later s'') :
    s.Later s'' :=
  ⟨h.entries.trans h'.entries, List.Subset.trans h.resolved h'.resolved⟩

/-- The state in which a run over a table of its own ends, and the table of others that agrees
with it.  New parameters have numbers from `bound` on, which are moved up by `shift`. -/
structure Sharing (c : Configuration) where
  final : RecastState
  others : TypeTable
  bound : Nat
  shift : Nat
  closed : c.Closed others
  agrees : final.table.Agrees others
  foreseen : others.Foreseen final.resolved

namespace Sharing

variable {c : Configuration} (j : Sharing c)

def number : Nat → Nat := shifted j.bound j.shift

/-- All numbers in the expression stay. -/
def Keeps (e : Expr) : Prop := e.Within fun p => j.number p.id = p.id

/-- A state of the run, and the state that the run over the table of the others has then. -/
structure Alongside (a b : RecastState) : Prop where
  merges : j.others.Merges a.table b.table
  closed : c.Closed b.table
  replacements : b.replacements = a.replacements.renumber j.number
  bound : j.bound ≤ a.fresh
  fresh : b.fresh = a.fresh + j.shift

/-- The computation has such a result. -/
def Yields {α : Type} (x : RecastM α) (r : α) : Prop := ∃ a a', Returns x a r a'

/-- Whenever the first computation ends on the way to the final state, the second ends alike:
well, with `g r` for `r`, or with the same failure. -/
structure Simulates {α β : Type} (x : RecastM α) (g : α → β) (y : RecastM β) : Prop where
  later : ∀ a : RecastState, a.Later (x.run a).2
  result : ∀ {a b : RecastState}, (x.run a).2.Later j.final → j.Alongside a b →
    (y.run b).1 = (x.run a).1.map g
  alongside : ∀ {a r a' b}, Returns x a r a' → a'.Later j.final → j.Alongside a b →
    j.Alongside a' (y.run b).2

variable {j} {α β γ δ : Type} {e : Expr}

theorem keeps_of_below (h : e.Within (·.id < j.bound)) : j.Keeps e :=
  fun p hp => shifted_of_lt (h p hp)

theorem Keeps.renumber (h : j.Keeps e) : e.renumber j.number = e := e.renumber_eq_self h

theorem number_injective (j : Sharing c) : Function.Injective j.number :=
  shifted_injective j.bound j.shift

namespace Simulates

/-! ### Runs that end well -/

theorem later_of_returns {x : RecastM α} {g : α → β} {y : RecastM β} (h : j.Simulates x g y)
    {a a' : RecastState} {r : α} (hx : Returns x a r a') : a.Later a' := by
  have hlater := h.later a
  rw [hx] at hlater
  exact hlater

theorem step {x : RecastM α} {g : α → β} {y : RecastM β} (h : j.Simulates x g y)
    {a a' b : RecastState} {r : α} (hx : Returns x a r a') (hfinal : a'.Later j.final)
    (hab : j.Alongside a b) : ∃ b', Returns y b (g r) b' ∧ j.Alongside a' b' := by
  have hresult : (y.run b).1 = .ok (g r) := by
    have hfinal' : (x.run a).2.Later j.final := by rwa [hx]
    rw [h.result hfinal' hab, hx]
    rfl
  exact ⟨(y.run b).2, returns_of_run hresult, h.alongside hx hfinal hab⟩

/-- For a computation that always ends well it is enough to look at runs that do. -/
theorem of_total {x : RecastM α} {g : α → β} {y : RecastM β}
    (htotal : ∀ a, ∃ r a', Returns x a r a')
    (hlater : ∀ {a r a'}, Returns x a r a' → a.Later a')
    (hstep : ∀ {a r a' b}, Returns x a r a' → a'.Later j.final → j.Alongside a b →
      ∃ b', Returns y b (g r) b' ∧ j.Alongside a' b') : j.Simulates x g y where
  later a := by
    obtain ⟨r, a', hx⟩ := htotal a
    rw [hx]
    exact hlater hx
  result {a b} hfinal hab := by
    obtain ⟨r, a', hx⟩ := htotal a
    rw [hx] at hfinal ⊢
    obtain ⟨b', hy, -⟩ := hstep hx hfinal hab
    rw [hy]
    rfl
  alongside hx hfinal hab := by
    obtain ⟨b', hy, hab'⟩ := hstep hx hfinal hab
    rwa [hy]

/-! ### Composition -/

theorem pure {r : α} {r' : β} {g : α → β} (h : g r = r') :
    j.Simulates (Pure.pure r) g (Pure.pure r') := by
  refine .of_total (fun a => ⟨r, a, returns_pure.mpr ⟨rfl, rfl⟩⟩) (fun hx => ?_)
    fun hx _ hab => ?_
  · obtain ⟨-, rfl⟩ := returns_pure.mp hx
    exact .refl _
  · obtain ⟨rfl, rfl⟩ := returns_pure.mp hx
    exact ⟨_, returns_pure.mpr ⟨h.symm, rfl⟩, hab⟩

theorem throw {err : MappingError} {g : α → β} :
    j.Simulates (MonadExcept.throw err) g (MonadExcept.throw err) where
  later a := .refl a
  result _ _ := rfl
  alongside hx := absurd hx returns_throw

theorem bind {x : RecastM α} {g : α → β} {y : RecastM β} {f : α → RecastM γ} {h : γ → δ}
    {f' : β → RecastM δ} (hx : j.Simulates x g y)
    (hf : ∀ r, Yields x r → j.Simulates (f r) h (f' (g r))) :
    j.Simulates (x >>= f) h (y >>= f') where
  later a := by
    have hlater := hx.later a
    rw [run_bind]
    rcases hrun : x.run a with ⟨_ | r, a₁⟩
    · rw [hrun] at hlater
      exact hlater
    · rw [hrun] at hlater
      exact hlater.trans ((hf r ⟨a, a₁, hrun⟩).later a₁)
  result {a b} hfinal hab := by
    have hresult := @hx.result a b
    rw [run_bind] at hfinal ⊢
    rw [run_bind]
    rcases hrun : x.run a with ⟨err | r, a₁⟩
    · rw [hrun] at hfinal hresult
      have hfails := hresult hfinal hab
      rcases hrun' : y.run b with ⟨err' | r', b₁⟩
      · rw [hrun'] at hfails
        obtain rfl := Except.error.inj hfails
        rfl
      · rw [hrun'] at hfails
        cases hfails
    · rw [hrun] at hfinal
      have hr := hf r ⟨a, a₁, hrun⟩
      obtain ⟨b₁, hfirst, hab₁⟩ := hx.step hrun ((hr.later a₁).trans hfinal) hab
      rw [hfirst]
      exact hr.result hfinal hab₁
  alongside {a r' a' b} hrun hfinal hab := by
    obtain ⟨r, a₁, hfirst, hrest⟩ := returns_bind.mp hrun
    have hr := hf r ⟨_, _, hfirst⟩
    obtain ⟨b₁, hfirst', hab₁⟩ := hx.step hfirst ((hr.later_of_returns hrest).trans hfinal) hab
    rw [run_bind, hfirst']
    exact hr.alongside hrest hfinal hab₁

theorem map {x : RecastM α} {g : α → β} {y : RecastM β} {u : α → γ} {v : β → δ} {h : γ → δ}
    (hx : j.Simulates x g y) (huv : ∀ r, h (u r) = v (g r)) :
    j.Simulates (u <$> x) h (v <$> y) := by
  rw [map_eq_pure_bind, map_eq_pure_bind]
  exact hx.bind fun r _ => pure (huv r)

theorem ite {p : Prop} [Decidable p] {x x' : RecastM α} {g : α → β} {y y' : RecastM β}
    (h : j.Simulates x g y) (h' : j.Simulates x' g y') :
    j.Simulates (if p then x else x') g (if p then y else y') := by
  split
  · exact h
  · exact h'

theorem checked {x : Checked α} {g : α → β} {y : Checked β} (h : y = x.map g) :
    j.Simulates (RecastM.ofChecked x) g (RecastM.ofChecked y) := by
  subst h
  cases x with
  | error err => exact throw
  | ok r => exact pure rfl

theorem unchanged {x : Checked α} : j.Simulates (RecastM.ofChecked x) id (RecastM.ofChecked x) :=
  checked (by cases x <;> rfl)

end Simulates

/-! ## §3  Table, look-ups, parameters -/

/-- Over the merged table a registration ends alike. -/
theorem relate_merged (model data : Ty) {own both : TypeTable}
    (hfinal : ((c.relate model data).run own).2.entries <+: j.final.table.entries)
    (hboth : j.others.Merges own both) :
    ∃ both', (c.relate model data).run both = (((c.relate model data).run own).1, both') ∧
      j.others.Merges ((c.relate model data).run own).2 both' := by
  obtain ⟨both', hdrains, hboth'⟩ := (c.drains_relate model data own).merged j.closed
    j.agrees hfinal hboth (.refl c both _)
  obtain ⟨hresult, htable⟩ := (c.drains_relate model data both).unique hdrains
  exact ⟨both', Prod.ext hresult htable, hboth'⟩

theorem simulates_relate (model data : Ty) :
    j.Simulates (RecastM.onTable (c.relate model data)) id
      (RecastM.onTable (c.relate model data)) where
  later a := ⟨(c.drains_relate model data a.table).grows.entries, List.Subset.refl _⟩
  result {a b} hfinal hab := by
    obtain ⟨t', ht', -⟩ := relate_merged model data hfinal.entries hab.merges
    show ((c.relate model data).run b.table).1 = ((c.relate model data).run a.table).1.map id
    rw [ht', Except.map_id, id]
  alongside {a r a' b} h hfinal hab := by
    obtain ⟨t, ht, rfl⟩ := RecastM.returns_onTable.mp h
    have hfinal' : ((c.relate model data).run a.table).2.entries <+: j.final.table.entries := by
      rw [ht]
      exact hfinal.entries
    obtain ⟨t', ht', hmerges⟩ := relate_merged model data hfinal' hab.merges
    rw [ht] at ht' hmerges
    have hrun := RecastM.returns_onTable.mpr ⟨t', ht', rfl⟩
    rw [hrun]
    exact { hab with merges := hmerges, closed := Configuration.relate_closed ht' hab.closed }

/-! ### Paths -/

section Paths

variable {x : TableM α}

theorem onTable_pure (r : α) : RecastM.onTable (Pure.pure r) = Pure.pure r := rfl

theorem onTable_ofChecked (y : Checked α) :
    RecastM.onTable (TableM.ofChecked y) = RecastM.ofChecked y := by
  cases y <;> rfl

theorem onTable_bind (f : α → TableM β) :
    RecastM.onTable (x >>= f) = RecastM.onTable x >>= fun r => RecastM.onTable (f r) := by
  funext s
  have hright := run_bind (x := RecastM.onTable x) (f := fun r => RecastM.onTable (f r)) s
  have hleft := run_bind (x := x) (f := f) s.table
  simp only [RecastM.onTable, ExceptT.run] at hright hleft ⊢
  rw [hright, hleft]
  rcases x s.table with ⟨_ | r, t⟩ <;> rfl

theorem simulates_advance (fullPath : String) (model data : Ty) (name : String)
    (rest : List String) :
    j.Simulates (RecastM.onTable (c.advance fullPath model data name rest)) id
      (RecastM.onTable (c.advance fullPath model data name rest)) := by
  unfold Configuration.advance
  split
  · unfold Configuration.advanceAlike
    simp only [onTable_bind, onTable_ofChecked, onTable_pure]
    exact .bind .unchanged fun m _ => .bind .unchanged fun d _ =>
      .bind (simulates_relate m.ty d.ty) fun _ _ => .pure rfl
  · rw [onTable_ofChecked]
    exact .unchanged

theorem simulates_followPath (limit : Nat) (fullPath : String) :
    ∀ budget model data path steps,
      j.Simulates (RecastM.onTable (c.followPath limit fullPath budget model data path steps)) id
        (RecastM.onTable (c.followPath limit fullPath budget model data path steps))
  | 0, _, _, [], _ => .pure rfl
  | _ + 1, _, _, [], _ => .pure rfl
  | 0, _, _, _ :: _, _ => .throw
  | budget + 1, model, data, name :: rest, steps => by
      rw [Configuration.followPath]
      split
      · simp only [onTable_bind, onTable_ofChecked, onTable_pure]
        exact .bind .unchanged fun _ _ => .pure rfl
      · rw [onTable_bind]
        exact .bind (simulates_advance _ _ _ _ _) fun a _ =>
          simulates_followPath limit fullPath budget _ _ _ _

theorem simulates_dataPath (model data : Ty) (path : List String) (limit : Nat) :
    j.Simulates (RecastM.onTable (c.dataPath model data path limit)) id
      (RecastM.onTable (c.dataPath model data path limit)) :=
  simulates_followPath _ _ _ _ _ _ _

end Paths

/-! ### Look-ups -/

section LookUps

variable {w : Recaster} {j : Sharing w.config}

theorem later_lookUp (r : Registry) (t : Ty) (s : RecastState) : s.Later (s.lookUp r t) :=
  ⟨List.prefix_refl _, List.subset_append_left _ _⟩

theorem dataType_merged {a a' b : RecastState} {model : Ty} (hfinal : a'.Later j.final)
    (hnoted : a.table.resolutions w.types model ⊆ a'.resolved) (hab : j.Alongside a b) :
    b.table.dataType w.types model = a.table.dataType w.types model :=
  hab.merges.dataType model fun p hp => j.foreseen p (hfinal.resolved (hnoted hp))

theorem simulates_dataType (model : Ty) : j.Simulates (w.dataType model) id (w.dataType model) := by
  refine .of_total (fun a => ⟨_, _, Recaster.returns_dataType.mpr ⟨rfl, rfl⟩⟩) (fun h => ?_)
    fun h hfinal hab => ?_
  · obtain ⟨-, rfl⟩ := Recaster.returns_dataType.mp h
    exact later_lookUp _ _ _
  · obtain ⟨rfl, rfl⟩ := Recaster.returns_dataType.mp h
    have hsame := dataType_merged hfinal (List.subset_append_right _ _) hab
    exact ⟨_, Recaster.returns_dataType.mpr ⟨hsame, rfl⟩, { hab with }⟩

theorem simulates_dataTypes : ∀ ts : List Ty, j.Simulates (w.dataTypes ts) id (w.dataTypes ts)
  | [] => .pure rfl
  | t :: ts => .bind (simulates_dataType t) fun _ _ =>
      .bind (simulates_dataTypes ts) fun _ _ => .pure rfl

theorem simulates_noteBuilt (ts : List Ty) :
    j.Simulates (RecastM.noteBuilt ts) id (RecastM.noteBuilt ts) := by
  refine .of_total (fun a => ⟨(), _, returns_modify.mpr rfl⟩) (fun h => ?_) fun h _ hab => ?_
  · obtain rfl := returns_modify.mp h
    exact ⟨List.prefix_refl _, List.Subset.refl _⟩
  · obtain rfl := returns_modify.mp h
    exact ⟨_, returns_modify.mpr rfl, { hab with }⟩

theorem simulates_replace {p : Parameter} (hp : j.number p.id = p.id) :
    j.Simulates (w.replace p) (·.renumber j.number) (w.replace p) := by
  refine .of_total (fun a => ⟨_, _, Recaster.returns_replace.mpr ⟨_, _, rfl, rfl⟩⟩) (fun h => ?_)
    fun {a p' a' b} h hfinal hab => ?_
  · obtain ⟨b', fresh', -, rfl⟩ := Recaster.returns_replace.mp h
    exact ⟨List.prefix_refl _, List.subset_append_left _ _⟩
  · obtain ⟨b', fresh', hrun, rfl⟩ := Recaster.returns_replace.mp h
    have hsame := dataType_merged hfinal (List.subset_append_right _ _) hab
    have hrun' := Replacements.replace_renumber (f := j.number) hrun hp (shifted_of_le hab.bound)
    refine ⟨_, Recaster.returns_replace.mpr ⟨_, _, ?_, rfl⟩, hab.merges, hab.closed, rfl, ?_, rfl⟩
    · rw [hsame, hab.replacements, hab.fresh]
      exact hrun'
    · rcases Replacements.replace_cases hrun with ⟨-, -, hf⟩ | ⟨-, -, ⟨-, -, hf⟩ | ⟨-, -, hf⟩⟩
      · exact hf ▸ hab.bound
      · exact hf ▸ hab.bound
      · exact hf ▸ Nat.le_succ_of_le hab.bound

theorem simulates_replaceAll : ∀ ps : List Parameter, (∀ p ∈ ps, j.number p.id = p.id) →
    j.Simulates (w.replaceAll ps) (·.map (·.renumber j.number)) (w.replaceAll ps)
  | [], _ => .pure rfl
  | p :: ps, h => .bind (simulates_replace (h p List.mem_cons_self)) fun _ _ =>
      .bind (simulates_replaceAll ps fun q hq => h q (List.mem_cons_of_mem p hq)) fun _ _ =>
        .pure rfl

end LookUps

/-! ## §4  Nodes -/

section Nodes

variable {w : Recaster} {j : Sharing w.config}

theorem simulates_constantAs (v : Value) (source target : Ty) :
    j.Simulates (w.constantAs v source target) (Expr.renumber j.number)
      (w.constantAs v source target) := by
  unfold Recaster.constantAs
  split
  · exact .pure rfl
  · exact .throw

theorem simulates_settle (model : Ty) (custom : Bool) (walked : Expr) :
    j.Simulates (w.settle model custom walked) (Expr.renumber j.number)
      (w.settle model custom (walked.renumber j.number)) := by
  unfold Recaster.settle
  rw [Expr.ty_renumber]
  exact .ite (.checked (w.types.mkConversion_renumber _ _ _))
    (.bind (simulates_relate _ _) fun _ _ => .pure rfl)

theorem simulates_conversionTarget (op : UnaryOp) (t : Ty) :
    j.Simulates (w.conversionTarget op t) id (w.conversionTarget op t) :=
  .ite (simulates_dataType t) (.pure rfl)

theorem simulates_rebuildUnary (op : UnaryOp) (e : Expr) (t target : Ty) :
    j.Simulates (w.rebuildUnary op e t target) (Expr.renumber j.number)
      (w.rebuildUnary op (e.renumber j.number) t target) :=
  .ite (.ite (.pure rfl) (.map (simulates_dataType t) fun _ => rfl))
    (.ite (.checked (w.types.mkConversion_renumber _ _ _))
      (.checked (w.types.mkUnary_renumber _ _)))

theorem simulates_reclose (m : Method) (args : List Expr) :
    j.Simulates (w.reclose m args) id (w.reclose m (args.map (Expr.renumber j.number))) := by
  have htys : (args.map (Expr.renumber j.number)).map (·.ty) = args.map (·.ty) := by
    simp [Function.comp_def]
  unfold Recaster.reclose
  rw [htys]
  refine .ite (.pure rfl) (.bind (simulates_dataTypes _) fun _ _ =>
    .bind (simulates_noteBuilt _) fun _ _ => ?_)
  dsimp only [id]
  split
  · exact .pure rfl
  · split
    · exact .bind (simulates_noteBuilt _) fun _ _ => .pure rfl
    · exact .throw

theorem walk_renumber (hcustoms : ∀ custom, w.config.IsCustom custom → j.Keeps custom) :
    ∀ (steps : List DataStep) (e : Expr), w.config.CustomSteps steps →
      w.walk (e.renumber j.number) steps = (w.walk e steps).map (Expr.renumber j.number)
  | [], _, _ => rfl
  | .members ms :: steps, e, h => by
      rw [Recaster.walk, Recaster.walk, Expr.select_renumber]
      exact walk_renumber hcustoms steps _ fun custom hmem => h custom (List.mem_cons_of_mem _ hmem)
  | .custom lambda :: steps, e, h => by
      have hlambda := (hcustoms lambda (h lambda List.mem_cons_self)).renumber
      rw [Recaster.walk, Recaster.walk, w.types.betaReduce_renumber j.number_injective hlambda]
      cases w.types.betaReduce lambda e with
      | error err => rfl
      | ok reached =>
          exact walk_renumber hcustoms steps reached fun custom hmem =>
            h custom (List.mem_cons_of_mem _ hmem)

variable (hcustoms : ∀ custom, w.config.IsCustom custom → j.Keeps custom)
  {self : Expr → RecastM Outcome}
  (hself : ∀ e, j.Keeps e → j.Simulates (self e) (Outcome.renumber j.number) (self e))

include hcustoms hself in
theorem simulates_member (e : Expr) (he : j.Keeps e) :
    j.Simulates (w.member self e) (Outcome.renumber j.number) (w.member self e) := by
  refine .bind (hself _ he.chainBase) fun o _ => ?_
  rw [Outcome.on_renumber (Keeps.renumber he.chainBase), Outcome.isKept_renumber]
  dsimp only
  rw [Expr.ty_renumber]
  refine .bind (simulates_dataPath _ _ _ _) fun steps hsteps => .ite (.pure rfl) ?_
  have hcustom : w.config.CustomSteps steps := by
    obtain ⟨a, a', hrun⟩ := hsteps
    obtain ⟨t, hpath, -⟩ := RecastM.returns_onTable.mp hrun
    exact Configuration.followPath_customs hpath fun _ hmem => by cases hmem
  refine .bind (.checked (walk_renumber hcustoms steps _ hcustom)) fun walked _ =>
    .bind (simulates_settle _ _ _) fun rebuilt _ => .ite (.map (.checked ?_) fun _ => rfl) (.pure rfl)
  exact w.types.singleChain_renumber j.number_injective _ _

include hself

theorem simulates_all : ∀ es : List Expr, (∀ e ∈ es, j.Keeps e) →
    j.Simulates (Recaster.all self es) (Prod.map (List.map (Expr.renumber j.number)) id)
      (Recaster.all self es)
  | [], _ => .pure rfl
  | e :: es, h => by
      have he := h e List.mem_cons_self
      refine .bind (hself e he) fun o _ =>
        .bind (simulates_all es fun x hx => h x (List.mem_cons_of_mem e hx)) fun rest _ => .pure ?_
      rw [Outcome.on_renumber he.renumber, Outcome.isKept_renumber]
      rfl

theorem simulates_optional : ∀ e? : Option Expr, (∀ e ∈ e?, j.Keeps e) →
    j.Simulates (Recaster.optional self e?) (Prod.map (Option.map (Expr.renumber j.number)) id)
      (Recaster.optional self e?)
  | none, _ => .pure rfl
  | some e, h => by
      refine .bind (hself e (h e rfl)) fun o _ => .pure ?_
      rw [Outcome.on_renumber (h e rfl).renumber, Outcome.isKept_renumber]
      rfl

theorem simulates_lambda (params : List Parameter) (body : Expr)
    (hparams : ∀ p ∈ params, j.number p.id = p.id) (hbody : j.Keeps body) :
    j.Simulates (w.lambda self params body) (Outcome.renumber j.number)
      (w.lambda self params body) := by
  refine .bind (simulates_replaceAll params hparams) fun params' _ => .bind (hself body hbody) fun o _ => ?_
  have hsame : params.map (·.renumber j.number) = params :=
    Expr.map_renumber_eq_self hparams
  have hbeq : (params'.map (·.renumber j.number) == params) = (params' == params) := by
    conv_lhs => rw [← hsame]
    exact Expr.parameters_beq_renumber j.number_injective _ _
  rw [Outcome.isKept_renumber, hbeq, Outcome.on_renumber hbody.renumber, Registry.mkLambda_renumber]
  exact .ite (.pure rfl) (.pure rfl)

theorem simulates_operand (op : UnaryOp) (e : Expr) (t : Ty) (he : j.Keeps e) :
    j.Simulates (w.operand self op e t) (Outcome.renumber j.number) (w.operand self op e t) := by
  refine .bind (hself e he) fun o _ => ?_
  rw [Outcome.isKept_renumber, Outcome.on_renumber he.renumber]
  exact .ite (.ite (.pure rfl) (.map (.checked (w.types.mkQuote_renumber _)) fun _ => rfl))
    (.bind (simulates_conversionTarget op t) fun _ _ =>
      .ite (.pure rfl) (.map (simulates_rebuildUnary _ _ _ _) fun _ => rfl))

theorem simulates_unary (op : UnaryOp) (e : Expr) (t : Ty) (he : j.Keeps e) :
    j.Simulates (w.unary self op e t) (Outcome.renumber j.number) (w.unary self op e t) := by
  unfold Recaster.unary
  split
  · exact .bind (simulates_dataType t) fun _ _ =>
      .ite (.map (simulates_constantAs _ _ _) fun _ => rfl) (simulates_operand hself op e t he)
  · exact simulates_operand hself op e t he

theorem simulates_operands (left right : Expr) (hleft : j.Keeps left) (hright : j.Keeps right) :
    ∀ leftDone : Option Outcome,
      j.Simulates (Recaster.operands self left right leftDone)
        (Prod.map (Outcome.renumber j.number) (Outcome.renumber j.number))
        (Recaster.operands self left right (leftDone.map (Outcome.renumber j.number)))
  | some _ => .bind (hself right hright) fun _ _ => .pure rfl
  | none =>
      .ite (.bind (hself right hright) fun _ _ => .bind (hself left hleft) fun _ _ => .pure rfl)
        (.bind (hself left hleft) fun _ _ => .bind (hself right hright) fun _ _ => .pure rfl)

theorem simulates_binaryNode (op : BinaryOp) (left right : Expr) (conversion : Option Expr) (t : Ty)
    (he : j.Keeps (.binary op left right conversion t)) (leftDone : Option Outcome) :
    j.Simulates (w.binaryNode self op left right conversion leftDone) (Outcome.renumber j.number)
      (w.binaryNode self op left right conversion (leftDone.map (Outcome.renumber j.number))) := by
  have hleft : j.Keeps left := he.child (by simp [Expr.children])
  have hright : j.Keeps right := he.child (by simp [Expr.children])
  have hconversion : ∀ c ∈ conversion, j.Keeps c := fun c hc =>
    he.child (by simp [Expr.children, Option.mem_def.mp hc])
  refine .bind (simulates_operands hself left right hleft hright leftDone) fun (l, r) _ =>
    .bind (simulates_optional hself conversion hconversion) fun (conversion', kept) _ => ?_
  dsimp only [Prod.map, id]
  rw [Outcome.isKept_renumber, Outcome.isKept_renumber, Outcome.on_renumber hleft.renumber,
    Outcome.on_renumber hright.renumber]
  exact .ite (.pure rfl) (.map (.checked (w.types.mkBinary_renumber _ _ _ _)) fun _ => rfl)

theorem simulates_spine (e : Expr) : j.Keeps e →
    j.Simulates (w.spine self e) (Outcome.renumber j.number) (w.spine self e) := by
  induction e using Recaster.spine.induct with
  | case1 op left right conversion t hleft ih =>
      intro he
      rw [Recaster.spine, if_pos hleft]
      exact .bind (ih (he.child (by simp [Expr.children]))) fun l _ =>
        simulates_binaryNode hself op left right conversion t he (some l)
  | case2 op left right conversion t hleft =>
      intro he
      rw [Recaster.spine, if_neg hleft]
      exact simulates_binaryNode hself op left right conversion t he none
  | case3 e hbinary =>
      intro he
      rw [Recaster.spine]
      · exact hself e he
      · exact hbinary

theorem simulates_arguments : ∀ es : List Expr, (∀ e ∈ es, j.Keeps e) →
    j.Simulates (w.arguments self es) (Prod.map (List.map (Expr.renumber j.number)) id)
      (w.arguments self es)
  | [], _ => .pure rfl
  | e :: es, h => by
      have he := h e List.mem_cons_self
      refine .bind (hself e he) fun o _ => ?_
      rw [Outcome.on_renumber he.renumber, Outcome.isKept_renumber, Expr.ty_renumber]
      exact .bind (simulates_relate _ _) fun _ _ =>
        .bind (simulates_arguments es fun x hx => h x (List.mem_cons_of_mem e hx)) fun _ _ =>
          .pure rfl

omit hself in
theorem fitArguments_renumber : ∀ (args : List Expr) (params : List Ty),
    w.fitArguments (args.map (Expr.renumber j.number)) params =
      (w.fitArguments args params).map (List.map (Expr.renumber j.number))
  | [], [] | [], _ :: _ | _ :: _, [] => rfl
  | arg :: args, p :: params => by
      have hfit : w.fitArgument (arg.renumber j.number) p =
          (w.fitArgument arg p).map (Expr.renumber j.number) := by
        unfold Recaster.fitArgument Registry.mkConvert
        rw [Expr.ty_renumber, Registry.mkConversion_renumber]
        split <;> rfl
      rw [List.map_cons, Recaster.fitArguments, Recaster.fitArguments, hfit,
        fitArguments_renumber args params]
      cases w.fitArgument arg p with
      | error err => rfl
      | ok arg' => cases w.fitArguments args params <;> rfl

theorem simulates_call (target : Option Expr) (m : Method) (args : List Expr)
    (he : j.Keeps (.call target m args)) :
    j.Simulates (w.call self target m args) (Outcome.renumber j.number)
      (w.call self target m args) := by
  have htarget : ∀ e ∈ target, j.Keeps e := fun e ht =>
    he.child (by simp [Expr.children, Option.mem_def.mp ht])
  have hargs : ∀ e ∈ args, j.Keeps e := fun e hargs => he.child (by simp [Expr.children, hargs])
  refine .bind (simulates_optional hself target htarget) fun (target', targetKept) _ =>
    .bind (simulates_arguments hself args hargs) fun (args', argsKept) _ => .ite (.pure rfl) ?_
  exact .bind (simulates_reclose m args') fun m' _ =>
    .bind (.checked (fitArguments_renumber args' m'.params)) fun fitted _ =>
      .map (.checked (w.types.mkCall_renumber target' m' fitted)) fun _ => rfl

theorem simulates_construct (t : Ty) (inits : List (String × Expr))
    (he : j.Keeps (.new t inits)) :
    j.Simulates (w.construct self t inits) (Outcome.renumber j.number)
      (w.construct self t inits) := by
  have hzip : ∀ (names : List String) (values : List Expr),
      names.zip (values.map (Expr.renumber j.number)) =
        (names.zip values).map fun i => (i.1, i.2.renumber j.number) := by
    intro names values
    rw [List.zip_map_right]
    rfl
  refine .bind (simulates_all hself _ fun _ hc => he.child hc) fun (values, kept) _ => ?_
  refine .ite (.pure ?_) (.bind (simulates_dataType t) fun target _ =>
    .ite (.ite (.pure rfl) (.map (.checked ?_) fun _ => rfl)) (.map (.checked ?_) fun _ => rfl))
  · cases kept with
    | true => rfl
    | false => exact congrArg Outcome.made (by rw [hzip, Registry.mkAnonymous_renumber])
  · rw [hzip]
    exact w.types.mkNew_renumber _ _
  · rw [hzip]
    exact w.types.mkNew_renumber _ _

include hcustoms in
theorem simulates_node (e : Expr) (he : j.Keeps e) :
    j.Simulates (w.node self e) (Outcome.renumber j.number) (w.node self e) := by
  have hbelow : ∀ c ∈ e.children, j.Simulates (self c) (Outcome.renumber j.number) (self c) :=
    fun c hc => hself c (he.child hc)
  have hchild : ∀ c ∈ e.children, c.renumber j.number = c := fun c hc => Keeps.renumber (he.child hc)
  cases e with
  | param p =>
      have hp := he.named p List.mem_cons_self
      have hsame : p.renumber j.number = p :=
        congrArg (fun id => { p with id := id }) hp
      refine .bind (simulates_replace hp) fun p' _ => .pure ?_
      -- The renumbering is one to one, so both runs keep the parameter or neither does.
      by_cases hkept : p' = p
      · rw [if_pos hkept, if_pos (by rw [hkept, hsame])]
        rfl
      · rw [if_neg hkept, if_neg]
        · rfl
        · intro hrenumbered
          rw [← hsame] at hrenumbered
          exact hkept ((Parameter.renumber_inj j.number_injective).mp hrenumbered)
  | const v t =>
      exact .bind (simulates_dataType t) fun _ _ =>
        .ite (.pure rfl) (.map (simulates_constantAs _ _ _) fun _ => rfl)
  | member target m => exact simulates_member hcustoms hself _ he
  | lambda params body t =>
      exact simulates_lambda hself params body he.named (he.child (by simp [Expr.children]))
  | unary op operand t =>
      exact simulates_unary hself op operand t (he.child (by simp [Expr.children]))
  | binary op left right conversion t => exact simulates_spine hself _ he
  | cond test whenTrue whenFalse t =>
      refine .bind (hbelow test (by simp [Expr.children])) fun oc _ =>
        .bind (hbelow whenTrue (by simp [Expr.children])) fun oa _ =>
          .bind (hbelow whenFalse (by simp [Expr.children])) fun ob _ => ?_
      rw [Outcome.isKept_renumber, Outcome.isKept_renumber, Outcome.isKept_renumber,
        Outcome.on_renumber (hchild test (by simp [Expr.children])),
        Outcome.on_renumber (hchild whenTrue (by simp [Expr.children])),
        Outcome.on_renumber (hchild whenFalse (by simp [Expr.children]))]
      exact .ite (.pure rfl) (.map (.checked (w.types.mkCond_renumber _ _ _)) fun _ => rfl)
  | call target m args => exact simulates_call hself target m args he
  | new t inits => exact simulates_construct hself t inits he
  | newArray t items =>
      exact .bind (simulates_all hself items fun _ hc => he.child hc) fun (items', kept) _ =>
        .bind (simulates_dataType _) fun target _ => .ite (.pure rfl)
          (.map (.checked (w.types.mkNewArray_renumber target items')) fun _ => rfl)
  | typeIs operand tested t =>
      refine .bind (hbelow operand (by simp [Expr.children])) fun o _ =>
        .bind (simulates_dataType tested) fun target _ => ?_
      rw [Outcome.isKept_renumber, Outcome.on_renumber (hchild operand (by simp [Expr.children]))]
      exact .ite (.pure rfl) (.pure rfl)
  | invoke g args t =>
      refine .bind (hbelow g (by simp [Expr.children])) fun o _ =>
        .bind (simulates_all hself args fun _ hc => he.child (by simp [Expr.children, hc]))
          fun (args', kept) _ => ?_
      rw [Outcome.isKept_renumber, Outcome.on_renumber (hchild g (by simp [Expr.children]))]
      exact .ite (.pure rfl) (.map (.checked (w.types.mkInvoke_renumber _ args')) fun _ => rfl)
  | default t =>
      refine .bind (simulates_dataType t) fun target _ => .pure ?_
      dsimp only [id]
      split <;> rfl

omit hself in
include hcustoms in
/-- By induction on the levels that are left. -/
theorem recastWithin_simulates : ∀ (n : Nat) (e : Expr), j.Keeps e →
    j.Simulates (w.recastWithin n e) (Outcome.renumber j.number) (w.recastWithin n e)
  | 0, _, _ => .throw
  | n + 1, e, he => simulates_node hcustoms (recastWithin_simulates n) e he

end Nodes

end Sharing

end Recast
