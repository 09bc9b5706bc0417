import Recast.Proofs.Batch
import Recast.Proofs.Delegate
import Recast.Proofs.ValueMapping

/-! # Asking for the delegate that is inferred

Without a pair of delegates a parameter takes the only data type configured for its type,
unless an earlier one has registered it.  With the pair that comes out of that, each parameter
is registered in its turn, with the data type that it gets in the end.  So what is
registered late in the first run, by the closure of another parameter, may be registered
early in the second; it implies nothing then, because nothing is configured for the two
types (`Configuration.implied_unconfigured`).  The tables are the same in the end
(`LambdaRecaster.relateAll_inferred`), and so are the lambdas (`LambdaRecaster.recast_inferred`).
-/

namespace Recast

/-! ## §1  Plain records and delegates -/

namespace Registry

/-- A record that closes no generic definition. -/
structure PlainRecord (r : Registry) (t : Ty) : Prop where
  record : r.isRecord t = true
  unformed : r.former? t = none

variable {r : Registry} {t : Ty}

/-- A record without arguments is declared as such or redefined. -/
theorem PlainRecord.isRedefined_or (h : r.PlainRecord t) :
    (r.isRedefined t = true ∧ ∀ generic args, t ≠ .inst generic args) ∨ ∃ id, t = .declared id := by
  rcases record_isRedefined_or h.record with hred | ⟨id, rfl⟩ | ⟨generic, args, rfl⟩
  · refine .inl ⟨hred, ?_⟩
    rintro generic args rfl
    cases h.unformed
  · exact .inr ⟨id, rfl⟩
  · cases h.unformed

theorem PlainRecord.tyArgs_eq (h : r.PlainRecord t) : r.tyArgs t = [] := by
  rcases h.isRedefined_or with ⟨hred, hinst⟩ | ⟨id, rfl⟩
  · unfold tyArgs
    split
    · exact absurd rfl (hinst _ _)
    · rw [if_pos hred]
  · simp [tyArgs]

theorem PlainRecord.stripExpression_eq (h : r.PlainRecord t) : r.stripExpression t = t := by
  rcases h.isRedefined_or with ⟨hred, -⟩ | ⟨id, rfl⟩
  · unfold stripExpression
    split
    · rw [if_pos hred]
    · rfl
  · rfl

theorem PlainRecord.signature?_eq (h : r.PlainRecord t) : r.signature? t = none := by
  rcases h.isRedefined_or with ⟨hred, -⟩ | ⟨id, rfl⟩
  · cases t with
    | func ps ret => simp only [signature?, hred, if_true]
    | expression u => simp only [signature?, hred, if_true]
    | _ => rfl
  · rfl

theorem signature?_stripExpression (r : Registry) (t : Ty) :
    r.signature? (r.stripExpression t) = r.signature? t := by
  unfold stripExpression
  split
  · rename_i d
    split
    · rfl
    · rename_i hred
      rw [signature?, if_neg hred]
  · rfl

/-- `Func<>`, unless it has been redefined. -/
def IsFunc (r : Registry) (t : Ty) : Prop := ∃ ps ret, t = .func ps ret ∧ r.isRedefined t = false

theorem IsFunc.stripExpression_eq (h : r.IsFunc t) : r.stripExpression t = t := by
  obtain ⟨ps, ret, rfl, -⟩ := h
  rfl

theorem IsFunc.isDelegate_eq (h : r.IsFunc t) : r.isDelegate t = true := by
  obtain ⟨ps, ret, rfl, hred⟩ := h
  simp [isDelegate, signature?, hred]

/-- A lambda of such a type passes the check for it again. -/
theorem IsFunc.mkLambdaTyped_eq (ht : r.IsFunc t) {params : List Parameter} {body : Expr}
    (h : r.NodeTyped (.lambda params body t)) :
    ∃ ret, r.signature? t = some (params.map (·.ty), ret) ∧ r.isAssignable body.ty ret = true ∧
      r.mkLambdaTyped t params body = .ok (.lambda params body t) := by
  obtain ⟨ps, ret, rfl, hred⟩ := ht
  have hsignature : r.signature? (.func ps ret) = some (ps, ret) := by
    rw [signature?, if_neg (by simp [hred])]
  have hchecked : ps = params.map (·.ty) ∧ r.isAssignable body.ty ret = true := by
    rcases h with hlambda | ⟨delegate, hlambda⟩
    · obtain ⟨rfl, rfl⟩ := Ty.func.inj (Expr.lambda.inj hlambda).2.2
      exact ⟨rfl, r.isAssignable_refl _⟩
    · obtain ⟨he, ret', hsignature', hret⟩ := mkLambdaTyped_delegate hlambda
      rw [← (Expr.lambda.inj he).2.2, hsignature] at hsignature'
      obtain ⟨rfl, rfl⟩ := Prod.mk.inj (Option.some.inj hsignature')
      exact ⟨rfl, hret⟩
  obtain ⟨rfl, hret⟩ := hchecked
  refine ⟨ret, hsignature, hret, ?_⟩
  have hstrip : r.stripExpression (.func (params.map (·.ty)) ret) = .func (params.map (·.ty)) ret :=
    rfl
  unfold mkLambdaTyped
  dsimp only
  rw [hstrip, hsignature]
  exact if_pos ⟨rfl, hret⟩

end Registry

/-! ## §2  Registering early -/

namespace TypeTable

variable {others own both : TypeTable} {k d : Ty}

/-- An entry that is new to both, among those of the others. -/
theorem Merges.add_others (h : Merges others own both) (k d : Ty) :
    Merges (others.add k d) own (both.add k d) := by
  intro k'
  rw [get?_add, get?_add, h k', Option.or_assoc]

/-- The entries of the others are entries of the first table. -/
theorem Merges.get?_eq (h : Merges others own both)
    (hothers : ∀ k d, others.get? k = some d → own.get? k = some d) (k : Ty) :
    both.get? k = own.get? k := by
  rw [h k]
  cases hk : others.get? k with
  | none => rw [Option.or_none]
  | some d => rw [hothers k d hk, Option.some_or]

theorem dataType_of_plainRecord {r : Registry} {t : TypeTable} (hk : r.PlainRecord k) :
    t.dataType r k = (t.get? k).getD k := by
  cases ht : t.get? k with
  | some d => exact t.dataType_of_get? r ht
  | none =>
      rw [t.dataType_of_none r ht, hk.tyArgs_eq]
      exact rebuilt_nil r hk.tyArgs_eq

end TypeTable

namespace Configuration

variable {c : Configuration} {model data : Ty}

/-- A correspondence of a record that nothing is configured for implies nothing. -/
theorem implied_unconfigured (hmodel : c.types.PlainRecord model)
    (hmapping : c.mapping? data model = none) : c.implied model data = .ok [] := by
  have helement : c.types.element? model = none := Registry.element?_of_record hmodel.record
  have hshares : c.sharesFormer model data = false := by
    rw [sharesFormer, hmodel.unformed]
    rfl
  unfold implied
  rw [hmodel.signature?_eq]
  dsimp only
  split
  · rw [helement]
  · rw [hshares, if_neg Bool.false_ne_true, hmapping]

/-- What is configured for a type is its only source. -/
theorem mapping?_of_onlySource {source? : Option Ty} (h : c.onlySource model = .ok source?)
    (hsource : source? ≠ some data) : c.mapping? data model = none := by
  rw [mapping?, mappingOf?, List.find?_eq_none]
  intro map hmap hpair
  obtain ⟨rfl, rfl⟩ : map.source = data ∧ map.destination = model := by
    simpa [Mapping.pair] using hpair
  have hmem : map.source ∈ (c.maps.filter (·.destination == map.destination)).map (·.source) :=
    List.mem_map_of_mem (List.mem_filter.mpr ⟨hmap, by simp⟩)
  unfold onlySource at h
  split at h
  · rename_i hnone
    rw [hnone] at hmem
    cases hmem
  · rename_i single hsingle
    rw [hsingle, List.mem_singleton] at hmem
    exact hsource (by rw [← Except.ok.inj h, hmem])
  · cases h

/-- Only what is inside `Expression<>` matters. -/
theorem Drains.of_stripped {p q : Ty × Ty} (hpq : c.stripped q = c.stripped p) {t t' : TypeTable}
    {pending : List (Ty × Ty)} {result : Checked Unit} (h : c.Drains (p :: pending) t result t') :
    c.Drains (q :: pending) t result t' := by
  have hsettled : c.Settled t q ↔ c.Settled t p := by rw [Settled, Settled, hpq]
  have henter : c.enter t q = c.enter t p := by rw [enter, enter, hpq]
  cases h with
  | skip settled rest => exact .skip (hsettled.mpr settled) rest
  | add new implied rest =>
      rw [← hpq] at implied
      rw [← henter] at rest
      exact .add (fun hq => new (hsettled.mp hq)) implied rest
  | fail new implied =>
      rw [← hpq] at implied
      rw [← henter]
      exact .fail (fun hq => new (hsettled.mp hq)) implied

/-- The second table has the entries of the first, and some that the first comes to in the end. -/
structure Ahead (c : Configuration) (final own both early : TypeTable) : Prop where
  merges : early.Merges own both
  closed : c.Closed both
  early_closed : c.Closed early
  early_final : ∀ k d, early.get? k = some d → final.get? k = some d

variable {final own own' both early : TypeTable}

theorem Ahead.agrees (h : c.Ahead final own both early) : final.Agrees early := by
  intro k d d' hd hd'
  rw [h.early_final k d' hd'] at hd
  exact (Option.some.inj hd).symm

/-- A pair that is settled in the second table changes neither. -/
theorem Ahead.skip (h : c.Ahead final own both early) (hsettled : c.Settled both (model, data)) :
    ∃ both' early', Returns (c.relate model data) both () both' ∧ c.Ahead final own both' early' :=
  ⟨both, early, returns_relate_iff.mpr (.skip hsettled (.done both)), h⟩

/-- A pair that implies nothing is registered ahead. -/
theorem Ahead.add (h : c.Ahead final own both early) (himplied : c.implied model data = .ok [])
    (hstripped : c.stripped (model, data) = (model, data)) (hfinal : final.get? model = some data) :
    ∃ both' early', Returns (c.relate model data) both () both' ∧ c.Ahead final own both' early' := by
  by_cases hsettled : c.Settled both (model, data)
  · exact h.skip hsettled
  · have hmodel := contains_of_not_settled hsettled
    have henter : c.enter both (model, data) = both.add model data := by rw [enter, hstripped]
    rw [hstripped, h.merges.contains_eq, Bool.or_eq_false_iff] at hmodel
    have himplied' :
        c.implied (c.stripped (model, data)).1 (c.stripped (model, data)).2 = .ok [] := by
      rw [hstripped]
      exact himplied
    have hrelate : Returns (c.relate model data) both () (both.add model data) :=
      returns_relate_iff.mpr (.add hsettled himplied' (henter ▸ .done _))
    refine ⟨_, early.add model data, hrelate, h.merges.add_others model data,
      relate_closed hrelate h.closed, ?_, ?_⟩
    · intro p hp
      rcases List.mem_append.mp hp with hp | hp
      · obtain ⟨pairs, hpairs, hall⟩ := h.early_closed p hp
        exact ⟨pairs, hpairs, fun q hq => (hall q hq).mono (early.prefix_add model data)⟩
      · obtain rfl := List.mem_singleton.mp hp
        exact ⟨[], himplied, fun q hq => by cases hq⟩
    · intro k d hk
      rw [TypeTable.get?_add, Option.or_eq_some_iff] at hk
      rcases hk with hk | ⟨-, hk⟩
      · exact h.early_final k d hk
      · split at hk
        · rename_i hsame
          rw [← hsame, hfinal, Option.some.inj hk]
        · cases hk

/-- A pair that the first run registers too. -/
theorem Ahead.relate (h : c.Ahead final own both early) {u : Unit}
    (hrelate : Returns (c.relate model data) own u own') (hfinal : own'.entries <+: final.entries) :
    ∃ both', Returns (c.relate model data) both () both' ∧ c.Ahead final own' both' early := by
  obtain ⟨both', hdrains, hmerges⟩ := (returns_relate_iff.mp hrelate).merged h.early_closed
    h.agrees hfinal h.merges (.refl c both _)
  have hboth : Returns (c.relate model data) both () both' := returns_relate_iff.mpr hdrains
  exact ⟨both', hboth, { h with merges := hmerges, closed := relate_closed hboth h.closed }⟩

end Configuration

/-! ## §3  Seeds -/

namespace LambdaRecaster

variable {m : LambdaRecaster}

section Seeds

variable {final early : TypeTable} {model data : Ty}

/-- The data type in the end of a type that nothing else is configured for. -/
theorem relate_unconfigured {own both : TypeTable} (hmodel : m.types.PlainRecord model)
    (hdata : final.dataType m.types model = data) (hstrip : m.types.stripExpression data = data)
    (hmapping : data ≠ model → m.config.mapping? data model = none)
    (hahead : m.config.Ahead final own both early) :
    ∃ both' early', Returns (m.config.relate model data) both () both' ∧
      m.config.Ahead final own both' early' := by
  have hstripped : m.config.stripped (model, data) = (model, data) :=
    Prod.ext hmodel.stripExpression_eq hstrip
  by_cases hsame : data = model
  · refine hahead.skip (.inl ?_)
    rw [hstripped, hsame]
  · refine hahead.add (Configuration.implied_unconfigured hmodel (hmapping hsame)) hstripped ?_
    rw [TypeTable.dataType_of_plainRecord hmodel] at hdata
    cases hget : final.get? model with
    | some d => rw [← hdata, hget, Option.getD_some]
    | none =>
        rw [hget] at hdata
        exact absurd hdata.symm hsame

/-- A type that is registered with its only source is registered with its data type in the end,
or may be already. -/
theorem relate_of_seedOnly {a a' : RecastState} {both : TypeTable} {u : Unit}
    (hmodel : m.types.PlainRecord model) (hdata : final.dataType m.types model = data)
    (hstrip : m.types.stripExpression data = data) (h : Returns (m.seedOnly model) a u a')
    (hfinal : a'.table.entries <+: final.entries)
    (hnew : a.table.contains model = false) (hahead : m.config.Ahead final a.table both early) :
    ∃ both' early', Returns (m.config.relate model data) both () both' ∧
      m.config.Ahead final a'.table both' early' := by
  rcases returns_seedOnly.mp h with ⟨hsource, rfl⟩ | ⟨source, hsource, h⟩
  · exact relate_unconfigured hmodel hdata hstrip
      (fun _ => Configuration.mapping?_of_onlySource hsource nofun) hahead
  · obtain ⟨own', hrelate, rfl⟩ := RecastM.returns_onTable.mp h
    have hstripped : m.config.stripped (model, source) = (model, m.types.stripExpression source) :=
      Prod.ext hmodel.stripExpression_eq rfl
    cases Configuration.returns_relate_iff.mp hrelate with
    | skip settled rest =>
        cases rest
        -- The source is the type itself in an `Expression<>`, so no mapping is for the pair.
        rw [Configuration.Settled, hstripped, hnew] at settled
        have hself : model = m.types.stripExpression source :=
          settled.resolve_right Bool.false_ne_true
        refine relate_unconfigured hmodel hdata hstrip (fun hne => ?_) hahead
        refine Configuration.mapping?_of_onlySource hsource fun hsame => hne ?_
        rw [← hstrip, ← Option.some.inj hsame, ← hself]
    | add new implied rest =>
        have hget := TypeTable.get?_mono (rest.grows.entries.trans hfinal)
          (Configuration.get?_enter new)
        rw [hstripped] at hget
        have hsource : data = m.types.stripExpression source := by
          rw [← hdata, final.dataType_of_get? _ hget]
        have hsame : m.config.stripped (model, data) = m.config.stripped (model, source) := by
          rw [hstripped, ← hsource]
          exact Prod.ext hmodel.stripExpression_eq hstrip
        have hrelate' : Returns (m.config.relate model data) a.table () own' :=
          Configuration.returns_relate_iff.mpr (.of_stripped hsame (.add new implied rest))
        obtain ⟨both', hboth, hahead'⟩ := hahead.relate hrelate' hfinal
        exact ⟨both', early, hboth, hahead'⟩

/-- The seeds take no numbers. -/
theorem fresh_seedUnique : ∀ {ps : List Parameter} {a a' : RecastState} {u : Unit},
    Returns (m.seedUnique ps) a u a' → a'.fresh = a.fresh
  | [], a, a', _, h => by
      obtain ⟨-, rfl⟩ := returns_pure.mp h
      rfl
  | p :: ps, a, a', _, h => by
      rcases returns_seedUnique_cons.mp h with ⟨-, h⟩ | ⟨-, a₁, honly, h⟩
      · exact fresh_seedUnique h
      · rw [fresh_seedUnique h]
        rcases returns_seedOnly.mp honly with ⟨-, rfl⟩ | ⟨source, -, honly⟩
        · rfl
        · obtain ⟨t, -, rfl⟩ := RecastM.returns_onTable.mp honly
          rfl

/-- With the data types that the parameters get in the end, the same is registered. -/
theorem relateAll_inferred : ∀ {ps : List Parameter} {a a' b : RecastState} {early : TypeTable}
    {u : Unit}, (∀ p ∈ ps, m.types.PlainRecord p.ty) →
      (∀ p ∈ ps, m.types.stripExpression (final.dataType m.types p.ty) =
        final.dataType m.types p.ty) →
      Returns (m.seedUnique ps) a u a' → a'.table.entries <+: final.entries →
      m.config.Ahead final a.table b.table early →
        ∃ both' early', Returns (m.relateAll (ps.map fun p => (p.ty, final.dataType m.types p.ty)))
            b () { b with table := both' } ∧ m.config.Ahead final a'.table both' early'
  | [], a, a', b, early, _, _, _, h, _, hahead => by
      obtain ⟨-, rfl⟩ := returns_pure.mp h
      exact ⟨b.table, early, returns_pure.mpr ⟨rfl, rfl⟩, hahead⟩
  | p :: ps, a, a', b, early, _, hplain, hstrip, h, hfinal, hahead => by
      obtain ⟨hp, hps⟩ := List.forall_mem_cons.mp hplain
      obtain ⟨hsp, hsps⟩ := List.forall_mem_cons.mp hstrip
      have hfirst : ∃ a₁ both₁ early₁, Returns (m.seedUnique ps) a₁ () a' ∧
          Returns (m.config.relate p.ty (final.dataType m.types p.ty)) b.table () both₁ ∧
          m.config.Ahead final a₁.table both₁ early₁ := by
        rcases returns_seedUnique_cons.mp h with ⟨hk, h⟩ | ⟨hk, a₁, honly, h⟩
        · have hsettled : m.config.Settled b.table (p.ty, final.dataType m.types p.ty) := by
            refine .inr ?_
            rw [Configuration.stripped, hahead.merges.contains_eq]
            dsimp only
            rw [← types, hp.stripExpression_eq, hk, Bool.true_or]
          obtain ⟨both₁, early₁, hboth, hahead₁⟩ := hahead.skip hsettled
          exact ⟨a, both₁, early₁, h, hboth, hahead₁⟩
        · have hfinal₁ := (Sharing.later_seedUnique h).entries.trans hfinal
          obtain ⟨both₁, early₁, hboth, hahead₁⟩ :=
            relate_of_seedOnly hp rfl hsp honly hfinal₁ hk hahead
          exact ⟨a₁, both₁, early₁, h, hboth, hahead₁⟩
      obtain ⟨a₁, both₁, early₁, hseed, hboth, hahead₁⟩ := hfirst
      obtain ⟨both', early', hrest, hahead'⟩ :=
        relateAll_inferred (b := { b with table := both₁ }) hps hsps hseed hfinal hahead₁
      refine ⟨both', early', ?_, hahead'⟩
      exact returns_bind.mpr ⟨(), _, RecastM.returns_onTable.mpr ⟨both₁, hboth, rfl⟩, hrest⟩

end Seeds

/-- A pair of delegates with as many parameters each as the lambda has registers them in turn. -/
theorem returns_seedPair {p : TyPair} {arity : Nat} {ps qs : List Ty} {ret ret' : Ty}
    {b b' : RecastState} {u : Unit} (hsource : m.types.signature? p.source = some (ps, ret))
    (hdestination : m.types.signature? p.destination = some (qs, ret'))
    (hps : ps.length = arity) (hqs : qs.length = arity)
    (h : Returns (m.relateAll (ps.zip qs)) b u b') : Returns (m.seedPair p arity) b u b' := by
  have hmodel : m.requireSignature p.source = .ok (ps, ret) := by rw [requireSignature, hsource]
  have hdata : m.requireSignature p.destination = .ok (qs, ret') := by
    rw [requireSignature, hdestination]
  refine returns_bind.mpr ⟨_, b, RecastM.returns_ofChecked.mpr ⟨hmodel, rfl⟩, ?_⟩
  refine returns_bind.mpr ⟨_, b, RecastM.returns_ofChecked.mpr ⟨hdata, rfl⟩, ?_⟩
  dsimp only
  rw [if_neg (not_not_intro (hps.trans hqs.symm)), if_neg (not_not_intro hps)]
  exact h

/-! ## §4  The result -/

theorem lambdaParts?_of_unquoted {e body : Expr} {params : List Parameter} {t : Ty}
    (h : unquoted e = .lambda params body t) : e.lambdaParts? = some (params, body, t) := by
  unfold unquoted at h
  split at h
  · subst h
    rfl
  · subst h
    rfl

/-- A lambda that has the delegate type asked for stays as it is. -/
theorem finish_inferred {e body : Expr} {o o' : Outcome} {params : List Parameter} {t : Ty}
    {p : TyPair} (h : m.finish e none o = .ok o') (ho : o.on (unquoted e) = .lambda params body t)
    (ht : m.types.IsFunc t) (htyped : m.types.NodeTyped (.lambda params body t))
    (hp : m.types.stripExpression p.destination = t) :
    m.finish e (some p) o = .ok (.made (o'.on e)) := by
  obtain ⟨ret, hsignature, hret, hlambda⟩ := ht.mkLambdaTyped_eq htyped
  have hfit : m.fitTo (.lambda params body t) p = .ok (.lambda params body t) := by
    have hrequired : m.requireSignature t = .ok (params.map (·.ty), ret) := by
      rw [requireSignature, hsignature]
    unfold fitTo
    dsimp only
    rw [hp, hrequired]
    show (m.fitBody _ body t ret >>= fun body => m.types.mkLambdaTyped t params body) = _
    rw [fitBody, if_pos hret]
    exact hlambda
  have hfitted : m.fitOutcome e (some p) o = .ok (.made (.lambda params body t)) := by
    show Outcome.made <$> m.fitTo (o.on (unquoted e)) p = _
    rw [ho, hfit]
    rfl
  obtain ⟨_, hnone, hon⟩ := on_finish h
  cases hnone
  rw [ho] at hon
  unfold finish
  rw [hfitted, hon]
  show (if isQuoted e then Outcome.made <$> m.types.mkQuote (.lambda params body t)
    else .ok (.made (.lambda params body t))) = _
  cases isQuoted e with
  | false => rfl
  | true =>
      have hdelegate : m.types.isDelegate (Expr.lambda params body t).ty = true := ht.isDelegate_eq
      rw [if_pos rfl, if_pos rfl, Registry.mkQuote, if_pos hdelegate]
      rfl

section Inferred

variable {asInclude : Bool} {e body body' : Expr} {params params' : List Parameter} {t t' : Ty}

/-- What is finished without a pair is a lambda as its constructor builds it.  Its parameters have
the types that the table holds when the body is reached. -/
theorem lambda_of_result {a a' : RecastState} {o o' : Outcome}
    (hlambda : unquoted e = .lambda params body t) (hdistinct : Parameter.Distinct params)
    (htyped : m.types.NodeTyped (unquoted e))
    (hrun : Returns ((⟨m.config, m.mapper, m.options, asInclude⟩ : Recaster).recast (unquoted e))
      a.cleared o a')
    (hfinish : m.finish e none o = .ok o') (hresult : unquoted (o'.on e) = .lambda params' body' t') :
    o.on (unquoted e) = .lambda params' body' t' ∧ m.types.NodeTyped (.lambda params' body' t') ∧
      params'.map (·.ty) = params.map fun p => a.table.dataType m.types p.ty := by
  rw [hlambda] at hrun
  obtain ⟨params₁, hreplaced, ho⟩ := Recaster.recastWithin_lambda hdistinct rfl hrun
  have hinner : ∃ body₁ t₁, o.on (unquoted e) = .lambda params₁ body₁ t₁ ∧
      m.types.NodeTyped (.lambda params₁ body₁ t₁) := by
    rcases ho with ⟨rfl, rfl⟩ | ⟨body₁, rfl⟩
    · exact ⟨body, t, hlambda, hlambda ▸ htyped⟩
    · exact ⟨body₁, _, rfl, .inl rfl⟩
  obtain ⟨body₁, t₁, hinner, htyped₁⟩ := hinner
  have hsame : unquoted (o'.on e) = .lambda params₁ body₁ t₁ := by
    obtain ⟨_, hnone, hon⟩ := on_finish hfinish
    cases hnone
    rw [hon, hinner]
    cases isQuoted e <;> rfl
  obtain ⟨rfl, rfl, rfl⟩ := Expr.lambda.inj (hsame.symm.trans hresult)
  exact ⟨hinner, htyped₁, Parameter.types_replaced hreplaced⟩

/-- The pair of the two delegates registers what was registered without it. -/
theorem seed_inferred {p : TyPair} {a a' : RecastState} (n' : Nat) {ret ret' : Ty}
    (hplain : ∀ q ∈ params, m.types.PlainRecord q.ty)
    (hparams' : ∀ q ∈ params', m.types.stripExpression q.ty = q.ty)
    (htys : params'.map (·.ty) = params.map fun q => a'.table.dataType m.types q.ty)
    (hsource : m.types.signature? p.source = some (params.map (·.ty), ret))
    (hdestination : m.types.signature? p.destination = some (params'.map (·.ty), ret'))
    (hseed : Returns (m.seedUnique params) a () a') (ha : a.table = {}) :
    ∃ both, Returns (m.seed params (some p)) { fresh := n' } () { fresh := n', table := both } ∧
      m.config.Closed both ∧ ∀ k, both.get? k = a'.table.get? k := by
  have hstrip : ∀ q ∈ params, m.types.stripExpression (a'.table.dataType m.types q.ty) =
      a'.table.dataType m.types q.ty := by
    intro q hq
    have hmem : a'.table.dataType m.types q.ty ∈ params'.map (·.ty) := htys ▸ List.mem_map_of_mem hq
    obtain ⟨q', hq', hty⟩ := List.mem_map.mp hmem
    rw [← hty]
    exact hparams' q' hq'
  have hempty : m.config.Ahead a'.table a.table ({} : TypeTable) {} := by
    rw [ha]
    exact ⟨TypeTable.merges_empty {}, m.config.closed_empty, m.config.closed_empty, nofun⟩
  obtain ⟨both, early, hrelate, hahead⟩ := relateAll_inferred (b := { fresh := n' }) hplain hstrip
    hseed (List.prefix_refl _) hempty
  refine ⟨both, ?_, hahead.closed, hahead.merges.get?_eq hahead.early_final⟩
  refine returns_seedPair hsource hdestination (List.length_map _) ?_ ?_
  · rw [htys, List.length_map]
  · rw [htys, List.zip_map']
    exact hrelate

variable {n : Nat} (hcustoms : ∀ custom, m.config.IsCustom custom → custom.Within (·.id < n))
include hcustoms

/-- A lambda over plain records that is recast without a pair of delegates is recast to the same
with the pair of its delegate and that of the result, if these are `Func<>` and no
parameter becomes an `Expression<>`. -/
theorem recast_inferred (run : m.LoneRun asInclude n)
    (hlambda : unquoted run.expr = .lambda params body t) (hdistinct : Parameter.Distinct params)
    (htyped : m.types.NodeTyped (unquoted run.expr)) (ht : m.types.IsFunc t)
    (hplain : ∀ q ∈ params, m.types.PlainRecord q.ty)
    (hresult : unquoted run.result = .lambda params' body' t') (ht' : m.types.IsFunc t')
    (hparams' : ∀ q ∈ params', m.types.stripExpression q.ty = q.ty)
    {p : TyPair} (hsource : m.types.stripExpression p.source = t)
    (hdestination : m.types.stripExpression p.destination = t') {n' : Nat} (hn : n ≤ n') :
    ∃ o s, Returns (m.recast run.expr (some p) asInclude) { fresh := n' } o s ∧
      run.result.RenamesNew n (o.on run.expr) := by
  have hparts := lambdaParts?_of_unquoted hlambda
  obtain ⟨_, _, _, a₁, o₁, hsame, hseed, hrun, hfinish⟩ := returns_recast.mp run.returns
  cases hparts.symm.trans hsame
  obtain ⟨hinner, htyped', htys⟩ :=
    lambda_of_result hlambda hdistinct htyped hrun hfinish hresult
  obtain ⟨ret, hsignature, -⟩ := ht.mkLambdaTyped_eq (hlambda ▸ htyped)
  obtain ⟨ret', hsignature', -⟩ := ht'.mkLambdaTyped_eq htyped'
  rw [← hsource, m.types.signature?_stripExpression] at hsignature
  rw [← hdestination, m.types.signature?_stripExpression] at hsignature'
  obtain ⟨both, hpair, hclosed, hboth⟩ :=
    seed_inferred n' hplain hparams' htys hsignature hsignature' hseed rfl
  -- Both runs reach the body with the same table, and new numbers are moved up in the second.
  let j : Sharing m.config :=
    { final := run.final, others := {}, bound := n, shift := n' - n, closed := m.config.closed_empty
      agrees := nofun
      foreseen := nofun }
  have hab : j.Alongside a₁.cleared { fresh := n', table := both } := by
    have hfresh : a₁.fresh = n := fresh_seedUnique hseed
    refine ⟨fun k => ?_, hclosed, rfl, Nat.le_of_eq hfresh.symm, ?_⟩
    · rw [hboth]
      exact Option.or_none.symm
    · show n' = a₁.fresh + (n' - n)
      omega
  have hkeeps : j.Keeps run.expr := Sharing.keeps_of_below run.below
  have hsim := Sharing.recastWithin_simulates (w := ⟨m.config, m.mapper, m.options, asInclude⟩)
    (j := j) (fun custom hcustom => Sharing.keeps_of_below (hcustoms custom hcustom))
    m.options.maxDepth _ (within_unquoted hkeeps)
  obtain ⟨b', hrun', -⟩ := hsim.step hrun (.refl _) hab
  have hfinish' : m.finish run.expr (some p) (o₁.renumber j.number) =
      .ok ((Outcome.made (run.outcome.on run.expr)).renumber j.number) := by
    rw [Sharing.finish_renumber hkeeps (some p),
      finish_inferred hfinish hinner ht' htyped' hdestination]
    rfl
  refine ⟨_, b', returns_recast.mpr ⟨_, _, _, _, _, hparts, hpair, hrun', hfinish'⟩, j.number,
    j.number_injective, fun i hi => shifted_of_lt hi, ?_⟩
  exact Outcome.on_renumber hkeeps.renumber (.made (run.outcome.on run.expr))

end Inferred

namespace Orders

/-- Tests of orders, quoted, in place of tests of their models. -/
def orderTests : TyPair := ⟨.func [model] .boolean, .expression (.func [order] .boolean)⟩

end Orders

open Orders in
theorem recast_inferred_orders :
    ∃ o s, Returns (recaster.recast isX (some orderTests) false) { fresh := 5 } o s ∧
      isXRun.result.RenamesNew 3 (o.on isX) := by
  have hdistinct : Parameter.Distinct [⟨1, "m", model⟩] := by
    unfold Parameter.Distinct
    decide
  have hplain : ∀ q ∈ [(⟨1, "m", model⟩ : Parameter)], registry.PlainRecord q.ty := by
    intro q hq
    obtain rfl := List.mem_singleton.mp hq
    exact ⟨rfl, rfl⟩
  have hparams' : ∀ q ∈ [(⟨3, "m", order⟩ : Parameter)], registry.stripExpression q.ty = q.ty := by
    decide
  exact recast_inferred customs_below isXRun rfl hdistinct (.inl rfl) ⟨_, _, rfl, rfl⟩ hplain rfl
    ⟨_, _, rfl, rfl⟩ hparams' rfl rfl (by decide)

/-! ### Delegates that lead elsewhere -/

/-- The lambda is over plain records and recast well without a pair of delegates, but not to the
same with the pair of its delegate and that of the result. -/
def Strays (m : LambdaRecaster) (n : Nat) (e : Expr) : Prop :=
  ∃ params body t o s, e.lambdaParts? = some (params, body, t) ∧
    (∀ q ∈ params, m.types.PlainRecord q.ty) ∧
    Returns (m.recast e none false) { fresh := n } o s ∧
    ¬ ∃ o' s', Returns (m.recast e (some ⟨m.types.stripExpression e.ty,
        m.types.stripExpression (o.on e).ty⟩) false) { fresh := s.fresh } o' s' ∧
      (o.on e).RenamesNew n (o'.on e)

namespace Spans

def span : Ty := .declared 0

def stored : Ty := .declared 1

def recaster (maps : List Mapping) (redefined : List (Ty × RecordInfo)) : LambdaRecaster :=
  { config :=
      ⟨{ declarations := [.record "Span" none [], .record "Stored" none []], redefined := redefined },
        maps⟩,
    mapper := .keep }

/-- `s => s` -/
def same : Expr := Registry.mkLambda [⟨0, "s", span⟩] (.param ⟨0, "s", span⟩)

/-- The same in two quotes. -/
def quotedTwice : Expr :=
  .unary .quote (.unary .quote same (.expression same.ty)) (.expression same.ty)

/-- The same of type `Expression<Func<>>`. -/
def typedAsExpression : Expr :=
  .lambda [⟨0, "s", span⟩] (.param ⟨0, "s", span⟩) (.expression same.ty)

/-- Spans are stored in two layers of `Expression<>`. -/
def layered : LambdaRecaster :=
  recaster [{ source := .expression (.expression stored), destination := span }] []

def plain : LambdaRecaster := recaster [{ source := stored, destination := span }] []

/-- `Func<Stored, Stored>` is a record. -/
def redefining : LambdaRecaster :=
  recaster [{ source := stored, destination := span }]
    [(.func [stored] stored, ⟨"Span", none, [], none⟩)]

theorem plainRecord_span (m : LambdaRecaster) (hspan : m.types.isRecord span = true)
    (hformer : m.types.former? span = none) :
    ∀ q ∈ [(⟨0, "s", span⟩ : Parameter)], m.types.PlainRecord q.ty := by
  intro q hq
  obtain rfl := List.mem_singleton.mp hq
  exact ⟨hspan, hformer⟩

end Spans

theorem strays {m : LambdaRecaster} {n : Nat} {e : Expr} {params : List Parameter} {body : Expr}
    {t : Ty} {o : Outcome} {s : RecastState} (hparts : e.lambdaParts? = some (params, body, t))
    (hplain : ∀ q ∈ params, m.types.PlainRecord q.ty)
    (h : Returns (m.recast e none false) { fresh := n } o s)
    (hpair : ∀ o', ((m.recast e (some ⟨m.types.stripExpression e.ty,
        m.types.stripExpression (o.on e).ty⟩) false).run { fresh := s.fresh }).1 = .ok o' →
      (o'.on e).ty ≠ (o.on e).ty) : m.Strays n e := by
  refine ⟨params, body, t, o, s, hparts, hplain, h, ?_⟩
  rintro ⟨o', s', h', hrenames⟩
  exact hpair o' (congrArg Prod.fst h') hrenames.ty_eq

open Spans in
/-- The pair makes a difference where a parameter becomes an `Expression<>`, which is looked
through once more, and where it does not name the type that the result has without it. -/
theorem recast_inferred_fails :
    layered.Strays 1 same ∧ plain.Strays 1 quotedTwice ∧ redefining.Strays 1 same ∧
      (recaster [] []).Strays 1 typedAsExpression := by
  refine ⟨strays rfl (plainRecord_span _ rfl rfl) (returns_of_run rfl) nofun,
    strays rfl (plainRecord_span _ rfl rfl) (returns_of_run rfl) nofun,
    strays rfl (plainRecord_span _ rfl rfl) (returns_of_run rfl) nofun,
    strays rfl (plainRecord_span _ rfl rfl) (returns_of_run rfl) ?_⟩
  rintro o' h
  cases h
  decide

end LambdaRecaster

end Recast
