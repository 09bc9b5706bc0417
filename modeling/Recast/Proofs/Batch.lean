import Recast.Proofs.Alongside
import Recast.Proofs.TypeSoundness

/-! # Lambdas over one table

Lambdas that are recast one after another share a table, and what the earlier ones have
registered is there for the later ones.  A lambda that is recast well over a table of its
own gets the same result in such a batch as long as the others do not interfere with it
(`LoneRun.Unaffected`): they agree with it on the data types, registered none of the types
that it looks up without an entry, or with what these stood for, and did not keep it from
registering the type of a parameter.  Lambdas of which no two affect each other may so be
recast in any order (`LambdaRecaster.recastAll_recastsEach`).
-/

namespace Recast

/-- New parameters, those with numbers from `n` on, are numbered anew. -/
def Expr.RenamesNew (n : Nat) (e e' : Expr) : Prop :=
  ∃ f : Nat → Nat, Function.Injective f ∧ (∀ i, i < n → f i = i) ∧ e' = e.renumber f

theorem Expr.RenamesNew.ty_eq {n : Nat} {e e' : Expr} (h : e.RenamesNew n e') : e'.ty = e.ty := by
  obtain ⟨f, -, -, rfl⟩ := h
  exact e.ty_renumber f

namespace LambdaRecaster

variable {m : LambdaRecaster}

/-! ## §1  Seeds -/

/-- If a parameter of the type has a registration to start from, it is for this very type. -/
def SeedsItself (m : LambdaRecaster) (t : Ty) : Prop :=
  ∀ data, m.config.onlySource t = .ok (some data) → m.types.stripExpression t = t

theorem returns_seedOnly {model : Ty} {s s' : RecastState} {u : Unit} :
    Returns (m.seedOnly model) s u s' ↔
      m.config.onlySource model = .ok none ∧ s = s' ∨
        ∃ data, m.config.onlySource model = .ok (some data) ∧
          Returns (m.relate model data) s u s' := by
  unfold seedOnly
  rw [returns_bind]
  simp only [RecastM.returns_ofChecked]
  constructor
  · rintro ⟨_ | data, _, ⟨hsource, rfl⟩, h⟩
    · exact .inl ⟨hsource, (returns_pure.mp h).2⟩
    · exact .inr ⟨data, hsource, h⟩
  · rintro (⟨hsource, rfl⟩ | ⟨data, hsource, h⟩)
    · exact ⟨none, s, ⟨hsource, rfl⟩, returns_pure.mpr ⟨rfl, rfl⟩⟩
    · exact ⟨some data, s, ⟨hsource, rfl⟩, h⟩

theorem returns_seedUnique_cons {p : Parameter} {ps : List Parameter} {s s' : RecastState} {u : Unit} :
    Returns (m.seedUnique (p :: ps)) s u s' ↔
      s.table.contains p.ty = true ∧ Returns (m.seedUnique ps) s u s' ∨
        s.table.contains p.ty = false ∧
          ∃ s₁, Returns (m.seedOnly p.ty) s () s₁ ∧ Returns (m.seedUnique ps) s₁ u s' := by
  rw [seedUnique, returns_bind]
  constructor
  · rintro ⟨_, _, hget, h⟩
    obtain ⟨rfl, rfl⟩ := returns_get.mp hget
    split at h
    · rename_i hk
      exact .inl ⟨hk, h⟩
    · rename_i hk
      obtain ⟨_, s₁, honly, hrest⟩ := returns_bind.mp h
      exact .inr ⟨by simpa using hk, s₁, honly, hrest⟩
  · rintro (⟨hk, h⟩ | ⟨hk, s₁, honly, hrest⟩)
    · exact ⟨s, s, returns_get.mpr ⟨rfl, rfl⟩, by rwa [if_pos hk]⟩
    · refine ⟨s, s, returns_get.mpr ⟨rfl, rfl⟩, ?_⟩
      rw [if_neg (by simp [hk])]
      exact returns_bind.mpr ⟨(), s₁, honly, hrest⟩

end LambdaRecaster

namespace Sharing

variable {m : LambdaRecaster} {j : Sharing m.config} {a a' b : RecastState} {u : Unit}

theorem later_seedOnly {model : Ty} (h : Returns (m.seedOnly model) a u a') : a.Later a' := by
  rcases LambdaRecaster.returns_seedOnly.mp h with ⟨-, rfl⟩ | ⟨data, -, h⟩
  · exact .refl a
  · obtain ⟨t, ht, rfl⟩ := RecastM.returns_onTable.mp h
    exact ⟨(Configuration.returns_relate_iff.mp ht).grows.entries, List.Subset.refl _⟩

theorem later_seedUnique : ∀ {ps : List Parameter} {a a' : RecastState},
    Returns (m.seedUnique ps) a u a' → a.Later a'
  | [], a, a', h => by
      obtain ⟨-, rfl⟩ := returns_pure.mp h
      exact .refl a
  | p :: ps, a, a', h => by
      rcases LambdaRecaster.returns_seedUnique_cons.mp h with ⟨-, h⟩ | ⟨-, a₁, honly, h⟩
      · exact later_seedUnique h
      · exact (later_seedOnly honly).trans (later_seedUnique h)

/-- Both runs start from the same type. -/
theorem seedOnly_alongside {model : Ty} (h : Returns (m.seedOnly model) a u a')
    (hfinal : a'.Later j.final) (hab : j.Alongside a.cleared b.cleared) :
    ∃ b', Returns (m.seedOnly model) b () b' ∧ j.Alongside a'.cleared b'.cleared := by
  rcases LambdaRecaster.returns_seedOnly.mp h with ⟨hsource, rfl⟩ | ⟨data, hsource, h⟩
  · exact ⟨b, LambdaRecaster.returns_seedOnly.mpr (.inl ⟨hsource, rfl⟩), hab⟩
  · obtain ⟨t, ht, rfl⟩ := RecastM.returns_onTable.mp h
    have hgrown : ((m.config.relate model data).run a.table).2.entries <+: j.final.table.entries := by
      rw [ht]
      exact hfinal.entries
    obtain ⟨t', ht', hmerges⟩ := relate_merged model data hgrown hab.merges
    rw [ht] at ht' hmerges
    refine ⟨{ b with table := t' }, ?_, { hab with
      merges := hmerges, closed := Configuration.relate_closed ht' hab.closed }⟩
    exact LambdaRecaster.returns_seedOnly.mpr
      (.inr ⟨data, hsource, RecastM.returns_onTable.mpr ⟨t', ht', rfl⟩⟩)

/-- The others have the type, so the batch has nothing to start from any more. -/
theorem seedOnly_passed {model : Ty} (h : Returns (m.seedOnly model) a u a')
    (hfinal : a'.Later j.final) (hab : j.Alongside a.cleared b.cleared)
    (hmodel : b.table.contains model = true) (hself : m.SeedsItself model) :
    j.Alongside a'.cleared b.cleared := by
  rcases LambdaRecaster.returns_seedOnly.mp h with ⟨-, rfl⟩ | ⟨data, hsource, h⟩
  · exact hab
  · obtain ⟨t, ht, rfl⟩ := RecastM.returns_onTable.mp h
    have hsettled : m.config.Settled b.table (model, data) := by
      refine .inr ?_
      rw [Configuration.stripped]
      exact (hself data hsource).symm ▸ hmodel
    obtain ⟨t', hdrains, hmerges⟩ := (Configuration.returns_relate_iff.mp ht).merged j.closed
      j.agrees hfinal.entries hab.merges (.drop hsettled .nil)
    cases hdrains
    exact { hab with merges := hmerges }

theorem seedUnique_alongside : ∀ {ps : List Parameter} {a a' b : RecastState},
    Returns (m.seedUnique ps) a u a' → a'.Later j.final → j.Alongside a.cleared b.cleared →
      (∀ p ∈ ps, j.others.contains p.ty = true → m.SeedsItself p.ty) →
        ∃ b', Returns (m.seedUnique ps) b () b' ∧ j.Alongside a'.cleared b'.cleared
  | [], a, a', b, h, _, hab, _ => by
      obtain ⟨-, rfl⟩ := returns_pure.mp h
      exact ⟨b, returns_pure.mpr ⟨rfl, rfl⟩, hab⟩
  | p :: ps, a, a', b, h, hfinal, hab, hself => by
      have hrest := fun q hq => hself q (List.mem_cons_of_mem p hq)
      have hboth : b.table.contains p.ty = (a.table.contains p.ty || j.others.contains p.ty) :=
        hab.merges.contains_eq
      -- A type that is registered is passed over: on its own by what came before it in the same
      -- lambda, in the batch also by what the others registered.
      rcases LambdaRecaster.returns_seedUnique_cons.mp h with ⟨hp, h⟩ | ⟨hp, a₁, honly, h⟩
      · obtain ⟨b', hb', hab'⟩ := seedUnique_alongside h hfinal hab hrest
        rw [hp, Bool.true_or] at hboth
        exact ⟨b', LambdaRecaster.returns_seedUnique_cons.mpr (.inl ⟨hboth, hb'⟩), hab'⟩
      · have hfinal₁ := (later_seedUnique h).trans hfinal
        rw [hp, Bool.false_or] at hboth
        cases hothers : j.others.contains p.ty with
        | true =>
            rw [hothers] at hboth
            have hab₁ := seedOnly_passed honly hfinal₁ hab hboth (hself p List.mem_cons_self hothers)
            obtain ⟨b', hb', hab'⟩ := seedUnique_alongside h hfinal hab₁ hrest
            exact ⟨b', LambdaRecaster.returns_seedUnique_cons.mpr (.inl ⟨hboth, hb'⟩), hab'⟩
        | false =>
            rw [hothers] at hboth
            obtain ⟨b₁, honly', hab₁⟩ := seedOnly_alongside honly hfinal₁ hab
            obtain ⟨b', hb', hab'⟩ := seedUnique_alongside h hfinal hab₁ hrest
            exact ⟨b', LambdaRecaster.returns_seedUnique_cons.mpr
              (.inr ⟨hboth, b₁, honly', hb'⟩), hab'⟩

/-! ## §2  One lambda -/

theorem fitTo_renumber (f : Nat → Nat) (lambda : Expr) (p : TyPair) :
    m.fitTo (lambda.renumber f) p = (m.fitTo lambda p).map (·.renumber f) := by
  have hbody : ∀ (body : Expr) (destination ret : Ty),
      m.fitBody (lambda.renumber f) (body.renumber f) destination ret =
        (m.fitBody lambda body destination ret).map (·.renumber f) := by
    intro body destination ret
    unfold LambdaRecaster.fitBody Registry.mkConvert
    rw [Expr.ty_renumber, Expr.ty_renumber, Registry.mkConversion_renumber]
    split
    · rfl
    · split <;> rfl
  unfold LambdaRecaster.fitTo
  dsimp only
  cases m.requireSignature (m.types.stripExpression p.destination) with
  | error err => rfl
  | ok parts =>
      cases lambda using Expr.shapes with
      | lambda params body t =>
          show (m.fitBody ((Expr.lambda params body t).renumber f) (body.renumber f) _ _ >>= _) = _
          rw [hbody]
          show _ = (m.fitBody (.lambda params body t) body _ _ >>= _).map _
          cases m.fitBody (.lambda params body t) body (m.types.stripExpression p.destination)
              parts.2 with
          | error err => rfl
          | ok body' => exact m.types.mkLambdaTyped_renumber _ params body'
      | _ => rfl

theorem finish_renumber {e : Expr} (he : j.Keeps e) (pair : Option TyPair) (o : Outcome) :
    m.finish e pair (o.renumber j.number) =
      (m.finish e pair o).map (Outcome.renumber j.number) := by
  have hinner : j.Keeps (LambdaRecaster.unquoted e) := LambdaRecaster.within_unquoted he
  have hfit : m.fitOutcome e pair (o.renumber j.number) =
      (m.fitOutcome e pair o).map (Outcome.renumber j.number) := by
    cases pair with
    | none => rfl
    | some p =>
        show Outcome.made <$> m.fitTo _ p = (Outcome.made <$> m.fitTo _ p).map _
        rw [Outcome.on_renumber hinner.renumber, fitTo_renumber]
        cases m.fitTo (o.on (LambdaRecaster.unquoted e)) p <;> rfl
  unfold LambdaRecaster.finish
  rw [hfit]
  cases m.fitOutcome e pair o with
  | error err => rfl
  | ok fitted =>
      show (if LambdaRecaster.isQuoted e then Outcome.made <$> m.types.mkQuote
          ((fitted.renumber j.number).on (LambdaRecaster.unquoted e))
          else .ok (fitted.renumber j.number)) =
        (if LambdaRecaster.isQuoted e then
          Outcome.made <$> m.types.mkQuote (fitted.on (LambdaRecaster.unquoted e))
          else .ok fitted).map _
      rw [Outcome.on_renumber hinner.renumber, Registry.mkQuote_renumber]
      split
      · cases m.types.mkQuote (fitted.on (LambdaRecaster.unquoted e)) <;> rfl
      · rfl

/-- A recasting that ends well does so in the batch. -/
theorem recast_alongside {e : Expr} {o : Outcome} {asInclude : Bool}
    (h : Returns (m.recast e none asInclude) a o a') (hfinal : a'.Later j.final)
    (hab : j.Alongside a.cleared b.cleared) (he : j.Keeps e)
    (hcustoms : ∀ custom, m.config.IsCustom custom → j.Keeps custom)
    (hself : ∀ params body t, e.lambdaParts? = some (params, body, t) →
      ∀ p ∈ params, j.others.contains p.ty = true → m.SeedsItself p.ty) :
    ∃ b', Returns (m.recast e none asInclude) b (o.renumber j.number) b' ∧ j.Alongside a' b' := by
  obtain ⟨params, body, t, a₁, o', hparts, hseed, hrun, hfinish⟩ :=
    LambdaRecaster.returns_recast.mp h
  have hsim := recastWithin_simulates (w := ⟨m.config, m.mapper, m.options, asInclude⟩) (j := j)
    hcustoms m.options.maxDepth _ (LambdaRecaster.within_unquoted he)
  have hcleared : a₁.Later a₁.cleared := ⟨List.prefix_refl _, List.Subset.refl _⟩
  obtain ⟨b₁, hseed', hab₁⟩ := seedUnique_alongside hseed
    ((hcleared.trans (hsim.later_of_returns hrun)).trans hfinal) hab (hself params body t hparts)
  obtain ⟨b', hrun', hab'⟩ := hsim.step hrun hfinal hab₁
  refine ⟨b', LambdaRecaster.returns_recast.mpr ⟨_, _, _, b₁, _, hparts, hseed', hrun', ?_⟩, hab'⟩
  rw [finish_renumber he none, hfinish]
  rfl

end Sharing

/-! ## §3  Several lambdas -/

namespace LambdaRecaster

/-- A lambda that is recast well over a table of its own, without a pair of delegates.  The
numbers of its parameters are below `n`, those of new ones are not. -/
structure LoneRun (m : LambdaRecaster) (asInclude : Bool) (n : Nat) where
  expr : Expr
  outcome : Outcome
  final : RecastState
  below : expr.Within (·.id < n)
  returns : Returns (m.recast expr none asInclude) { fresh := n } outcome final

namespace LoneRun

variable {m : LambdaRecaster} {asInclude : Bool} {n : Nat}

def result (run : m.LoneRun asInclude n) : Expr := run.outcome.on run.expr

/-- The other run registers nothing that makes a difference to this one. -/
structure Unaffected (run other : m.LoneRun asInclude n) : Prop where
  agrees : run.final.table.Agrees other.final.table
  foreseen : other.final.table.Foreseen run.final.resolved
  /-- The type of a parameter that the other run has registered is the one to start from. -/
  seeds : ∀ params body t, run.expr.lambdaParts? = some (params, body, t) →
    ∀ p ∈ params, other.final.table.contains p.ty = true → m.SeedsItself p.ty

/-- Neither run makes a difference to the other. -/
def Apart (run other : m.LoneRun asInclude n) : Prop :=
  run.Unaffected other ∧ other.Unaffected run

end LoneRun

variable {m : LambdaRecaster} {asInclude : Bool} {n : Nat}

/-- The run next to the runs that are done, which do not affect it and have left the state `b`. -/
def LoneRun.sharing (run : m.LoneRun asInclude n) {done : List (m.LoneRun asInclude n)}
    {b : RecastState} (hclosed : m.config.Closed b.table)
    (hdone : ∀ k d, b.table.get? k = some d → ∃ other ∈ done, other.final.table.get? k = some d)
    (hrun : ∀ other ∈ done, run.Unaffected other) : Sharing m.config where
  final := run.final
  others := b.table
  bound := n
  shift := b.fresh - n
  closed := hclosed
  agrees k d d' hk hk' := by
    obtain ⟨other, hother, hk'⟩ := hdone k d' hk'
    exact (hrun other hother).agrees k d d' hk hk'
  foreseen p hp d hd := by
    obtain ⟨other, hother, hd⟩ := hdone p.1 d hd
    exact (hrun other hother).foreseen p hp d hd

section Batch

variable (hcustoms : ∀ custom, m.config.IsCustom custom → custom.Within (·.id < n))
include hcustoms

/-- The lambda of a run is recast to the same result after runs that do not affect it. -/
theorem LoneRun.recast_after (run : m.LoneRun asInclude n) {done : List (m.LoneRun asInclude n)}
    {b : RecastState} (hfresh : n ≤ b.fresh) (hclosed : m.config.Closed b.table)
    (hdone : ∀ k d, b.table.get? k = some d → ∃ other ∈ done, other.final.table.get? k = some d)
    (hrun : ∀ other ∈ done, run.Unaffected other) :
    ∃ o b', Returns (m.recast run.expr none asInclude) b o b' ∧
      run.result.RenamesNew n (o.on run.expr) ∧ n ≤ b'.fresh ∧ m.config.Closed b'.table ∧
      b.table.Merges run.final.table b'.table := by
  have hstart : (run.sharing hclosed hdone hrun).Alongside { fresh := n } b.cleared :=
    ⟨TypeTable.merges_empty _, hclosed, rfl, Nat.le_refl n, (Nat.add_sub_cancel' hfresh).symm⟩
  have hkeeps : (run.sharing hclosed hdone hrun).Keeps run.expr := Sharing.keeps_of_below run.below
  have hseeds : ∀ params body t, run.expr.lambdaParts? = some (params, body, t) →
      ∀ p ∈ params, b.table.contains p.ty = true → m.SeedsItself p.ty := by
    intro params body t hparts p hp hcontains
    obtain ⟨d, hd⟩ := TypeTable.contains_iff.mp hcontains
    obtain ⟨other, hother, hd⟩ := hdone p.ty d hd
    exact (hrun other hother).seeds params body t hparts p hp (TypeTable.contains_of_get? hd)
  obtain ⟨b', hrecast, hab⟩ := Sharing.recast_alongside run.returns (.refl _) hstart hkeeps
    (fun custom hcustom => Sharing.keeps_of_below (hcustoms custom hcustom)) hseeds
  refine ⟨_, b', hrecast, ⟨_, (run.sharing hclosed hdone hrun).number_injective,
    fun i hi => shifted_of_lt hi, ?_⟩, ?_, hab.closed, hab.merges⟩
  · exact Outcome.on_renumber hkeeps.renumber run.outcome
  · exact hab.fresh ▸ Nat.le_add_right_of_le hab.bound

/-- By induction on the runs that are left: the entries of the table come from those done. -/
theorem recastAll_runs : ∀ {runs done : List (m.LoneRun asInclude n)} {b : RecastState},
    n ≤ b.fresh → m.config.Closed b.table →
      (∀ k d, b.table.get? k = some d → ∃ other ∈ done, other.final.table.get? k = some d) →
      (∀ run ∈ runs, ∀ other ∈ done, run.Unaffected other) → runs.Pairwise LoneRun.Apart →
        ∃ rs b', Returns (m.recastAll asInclude (runs.map (·.expr))) b rs b' ∧
          List.Forall₂ (fun run r => run.result.RenamesNew n r) runs rs
  | [], _, b, _, _, _, _, _ => ⟨[], b, returns_pure.mpr ⟨rfl, rfl⟩, .nil⟩
  | run :: runs, done, b, hfresh, hclosed, hdone, hunaffected, hapart => by
      obtain ⟨hhead, htail⟩ := List.pairwise_cons.mp hapart
      obtain ⟨o, b₁, hrecast, hresult, hfresh₁, hclosed₁, hmerges⟩ :=
        run.recast_after hcustoms hfresh hclosed hdone (hunaffected run List.mem_cons_self)
      have hdone₁ : ∀ k d, b₁.table.get? k = some d →
          ∃ other ∈ run :: done, other.final.table.get? k = some d := by
        intro k d hk
        rw [hmerges k, Option.or_eq_some_iff] at hk
        rcases hk with hk | ⟨-, hk⟩
        · exact ⟨run, List.mem_cons_self, hk⟩
        · obtain ⟨other, hother, hd⟩ := hdone k d hk
          exact ⟨other, List.mem_cons_of_mem run hother, hd⟩
      have hunaffected₁ : ∀ next ∈ runs, ∀ other ∈ run :: done, next.Unaffected other := by
        intro next hnext other hother
        rcases List.mem_cons.mp hother with rfl | hother
        · exact (hhead next hnext).2
        · exact hunaffected next (List.mem_cons_of_mem run hnext) other hother
      obtain ⟨rs, b', hrest, hall⟩ := recastAll_runs hfresh₁ hclosed₁ hdone₁ hunaffected₁ htail
      exact ⟨o.on run.expr :: rs, b', returns_bind.mpr ⟨o, b₁, hrecast, returns_bind.mpr
        ⟨rs, b', hrest, returns_pure.mpr ⟨rfl, rfl⟩⟩⟩, .cons hresult hall⟩

/-- Lambdas that are recast well each on its own, no two of which affect each other, are recast
well in one batch, in every order, and to the same results up to the numbers of new parameters. -/
theorem recastAll_recastsEach {runs batch : List (m.LoneRun asInclude n)}
    (hapart : runs.Pairwise LoneRun.Apart) (hperm : batch.Perm runs) :
    ∃ rs s, Returns (m.recastAll asInclude (batch.map (·.expr))) { fresh := n } rs s ∧
      List.Forall₂ (fun run r => run.result.RenamesNew n r) batch rs := by
  have hbatch : batch.Pairwise LoneRun.Apart := hapart.perm hperm.symm fun h => And.symm h
  have hdone : ∀ k d, ({} : TypeTable).get? k = some d →
      ∃ other ∈ ([] : List (m.LoneRun asInclude n)), other.final.table.get? k = some d :=
    fun _ _ h => by cases h
  exact recastAll_runs hcustoms (Nat.le_refl n) m.config.closed_empty hdone
    (fun _ _ _ h => by cases h) hbatch

end Batch

/-! ### Two lambdas over orders -/

namespace Orders

/-- `q => q.Label` -/
def readLabel : Expr :=
  Registry.mkLambda [⟨2, "q", model⟩] (.member (.param ⟨2, "q", model⟩) label)

def isXRun : recaster.LoneRun false 3 where
  expr := isX
  outcome := .made (Registry.mkLambda [⟨3, "m", order⟩]
    (.binary .equal (.member (.param ⟨3, "m", order⟩) note) (.const (.str "x") .string) none
      .boolean))
  final := ((recaster.recast isX none false).run { fresh := 3 }).2
  below := by
    unfold Expr.Within
    decide
  returns := rfl

def readLabelRun : recaster.LoneRun false 3 where
  expr := readLabel
  outcome := .made (Registry.mkLambda [⟨3, "q", order⟩] (.member (.param ⟨3, "q", order⟩) note))
  final := ((recaster.recast readLabel none false).run { fresh := 3 }).2
  below := by
    unfold Expr.Within
    decide
  returns := rfl

theorem customs_below : ∀ custom, recaster.config.IsCustom custom → custom.Within (·.id < 3) := by
  rintro custom ⟨map, hmap, ⟨rule, hrule, hcustom⟩ | ⟨rule, hrule, -⟩⟩
  · obtain rfl := List.mem_singleton.mp hmap
    obtain rfl := List.mem_singleton.mp hrule
    obtain rfl := Option.some.inj hcustom
    unfold Expr.Within
    decide
  · obtain rfl := List.mem_singleton.mp hmap
    cases hrule

/-- Runs that register the model of the orders only, and do not look it up before. -/
theorem unaffected {run other : recaster.LoneRun false 3}
    (hrun : run.final.table = ⟨[(model, order)]⟩) (hother : other.final.table = ⟨[(model, order)]⟩)
    (hresolved : ∀ p ∈ run.final.resolved, p.1 ≠ model) : run.Unaffected other where
  agrees k d d' hd hd' := by
    rw [hrun] at hd
    rw [hother, hd] at hd'
    exact Option.some.inj hd'
  foreseen p hp d hd := by
    rw [hother] at hd
    obtain ⟨hp', -⟩ := Prod.mk.inj (List.mem_singleton.mp (TypeTable.mem_of_get? hd))
    exact absurd hp' (hresolved p hp)
  seeds params body t _ p _ hcontains := by
    rw [hother, TypeTable.contains_iff] at hcontains
    obtain ⟨d, hd⟩ := hcontains
    obtain ⟨hp, -⟩ := Prod.mk.inj (List.mem_singleton.mp (TypeTable.mem_of_get? hd))
    rw [hp]
    exact fun _ _ => rfl

theorem runs_apart : [isXRun, readLabelRun].Pairwise LoneRun.Apart := by
  have hisX : ∀ p ∈ isXRun.final.resolved, p.1 ≠ model := by decide
  have hreadLabel : ∀ p ∈ readLabelRun.final.resolved, p.1 ≠ model := by decide
  refine List.pairwise_pair.mpr ⟨unaffected rfl rfl hisX, unaffected rfl rfl hreadLabel⟩

end Orders

open Orders in
theorem recastAll_recastsEach_orders :
    ∃ rs s, Returns (recaster.recastAll false ([readLabelRun, isXRun].map (·.expr)))
        { fresh := 3 } rs s ∧
      List.Forall₂ (fun run r => run.result.RenamesNew 3 r) [readLabelRun, isXRun] rs :=
  recastAll_recastsEach customs_below runs_apart (.swap _ _ _)

/-! ### Lambdas that affect each other -/

/-- Each of the lambdas is recast well on its own, and both of them in a batch, where a result is
not the same. -/
def Disturbs (m : LambdaRecaster) (n : Nat) (e e' : Expr) : Prop :=
  ∃ o s o' s' rs s'', Returns (m.recast e none false) { fresh := n } o s ∧
    Returns (m.recast e' none false) { fresh := n } o' s' ∧
    Returns (m.recastAll false [e, e']) { fresh := n } rs s'' ∧
    ¬ List.Forall₂ (Expr.RenamesNew n) [o.on e, o'.on e'] rs

theorem disturbs {e e' r r' : Expr} {n : Nat} {s s' s'' : RecastState} {o o' : Outcome}
    (he : Returns (m.recast e none false) { fresh := n } o s)
    (he' : Returns (m.recast e' none false) { fresh := n } o' s')
    (hbatch : Returns (m.recastAll false [e, e']) { fresh := n } [r, r'] s'')
    (hty : r'.ty ≠ (o'.on e').ty) : m.Disturbs n e e' := by
  refine ⟨o, s, o', s', _, s'', he, he', hbatch, fun hall => ?_⟩
  cases hall with
  | cons _ hall =>
      cases hall with
      | cons hr' _ => exact hty hr'.ty_eq

namespace Parties

def person : Ty := .declared 0

def company : Ty := .declared 1

def party : Ty := .declared 2

def order : Ty := .declared 3

def ticket : Ty := .declared 4

def orderModel : Ty := .declared 5

def ticketModel : Ty := .declared 6

def buyer (t : Ty) : Member := ⟨"Buyer", t⟩

def registry : Registry :=
  { declarations :=
      [.record "Person" none [], .record "Company" none [], .record "Party" none [],
        .record "Order" none [buyer person], .record "Ticket" none [buyer company],
        .record "OrderModel" none [buyer party], .record "TicketModel" none [buyer party]] }

def recaster (maps : List Mapping) : LambdaRecaster := { config := ⟨registry, maps⟩, mapper := .keep }

/-- `p => p` -/
def same (t : Ty) : Expr := Registry.mkLambda [⟨0, "p", t⟩] (.param ⟨0, "p", t⟩)

/-- `q => default(t')` -/
def ignoring (t t' : Ty) : Expr := Registry.mkLambda [⟨1, "q", t⟩] (.default t')

/-- `() => default(Party)` -/
def noParty : Expr := Registry.mkLambda [] (.default party)

def parties : LambdaRecaster := recaster [{ source := person, destination := party }]

def buyers : LambdaRecaster :=
  recaster
    [{ source := order, destination := orderModel,
       rules := [{ member := buyer party, source := [buyer person] }] },
      { source := ticket, destination := ticketModel,
        rules := [{ member := buyer party, source := [buyer company] }] }]

def wrapped : LambdaRecaster :=
  recaster
    [{ source := .expression person, destination := .expression party },
      { source := .expression (.expression person), destination := .expression (.expression party) }]

end Parties

open Parties in
/-- Sharing a table makes a difference: to a type that is looked up without an entry, to one that
stands for different types, and to a parameter that is registered under another type. -/
theorem recastAll_recastsEach_fails :
    parties.Disturbs 2 (same party) noParty ∧
      buyers.Disturbs 2 (same orderModel) (ignoring ticketModel party) ∧
      wrapped.Disturbs 2 (same (.expression (.expression party)))
        (ignoring (.expression party) party) :=
  -- After the first lambda the second ends in `default(Person)` in the first two cases, where it
  -- ends in `default(Party)` and `default(Company)` on its own; in the last one it is the other
  -- way round, as nothing is registered for `Party` any more.
  ⟨disturbs rfl rfl rfl (by decide), disturbs rfl rfl rfl (by decide),
    disturbs rfl rfl rfl (by decide)⟩

end LambdaRecaster

end Recast
