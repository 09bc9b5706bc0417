import Recast.Proofs.Inheritance
import Recast.Proofs.InferredPair
import Recast.Proofs.PathSteps
import Recast.Proofs.PlanCalls
import Recast.Proofs.PredicateMeaning
import Recast.Proofs.Reversal

/-! # There and back

A mapping that was asked for with its reverse takes an access to a plain member to a
chain of source members, and the reverse takes the chain back to the member: a
single member by its rule, a longer chain by the path rule that is made of it.

- `Mapping.ownRule?_reversed`, `Mapping.ownPathRule?_reversed` — what the reverse has
  for the chain that a rule reads.
- `LambdaRecaster.returns_recast_chain` — recasting a lambda that accesses a chain.
- `LambdaRecaster.recast_reversed` — there and back.
-/

namespace Recast

/-! ## §1  The reverse of a rule -/

theorem find?_eraseP {α : Type} {a : α} {keep gone : α → Bool} {xs : List α}
    (hapart : ∀ x, gone x = true → keep x = false) (h : xs.find? keep = some a) :
    (xs.eraseP gone).find? keep = some a := by
  rcases xs.exists_or_eq_self_of_eraseP gone with hsame | ⟨x, front, back, -, hx, rfl, herase⟩
  · rw [hsame]
    exact h
  · rw [herase, List.find?_append]
    rwa [List.find?_append, List.find?_cons_of_neg (by simpa using hapart x hx)] at h

/-- What is settled for a name is what is found for it after filling in. -/
theorem Registry.fillMembers_find?_settled {r : Registry} {source : Ty} {name : String}
    {p : MemberRule} : ∀ {ms : List Member} {settled : List MemberRule},
      settled.find? (·.member.name == name) = some p →
        (r.fillMembers source settled ms).find? (·.member.name == name) = some p
  | [], _, hp => hp
  | m :: ms, settled, hp => by
      have hname : p.member.name = name := by simpa using List.find?_some hp
      rw [fillMembers]
      by_cases hm : m.name = name
      · rw [hm, hp]
        exact List.find?_cons_of_pos (by simpa using hname)
      · split
        · rename_i q hq
          have hqname : q.member.name = m.name := by simpa using List.find?_some hq
          rw [List.find?_cons_of_neg (by simpa [hqname] using hm)]
          refine fillMembers_find?_settled (find?_eraseP (fun x hx => ?_) hp)
          rw [beq_iff_eq] at hx
          simpa [hx] using hm
        · rw [List.find?_cons_of_neg (by simpa [byConvention] using hm)]
          exact fillMembers_find?_settled hp

namespace Mapping

variable {m : Mapping} {p : MemberRule} {id : Nat} {r : Registry}

/-- A rule that reads a chain, as the only one of the mapping that reads it. -/
structure ReadsAlone (m : Mapping) (p : MemberRule) : Prop where
  mem : p ∈ m.rules
  custom : p.custom = none
  kept : p.ignored = false
  source : p.source ≠ []
  alone : ∀ q ∈ m.rules, q.plainChain? = p.plainChain? → q = p

theorem ReadsAlone.plainChain?_eq (h : m.ReadsAlone p) :
    p.plainChain? = some (p.source.map (·.name)) := by
  rw [MemberRule.plainChain?, if_neg]
  simp [h.custom, h.kept, h.source]

/-- A member is read back from the one that is read from it. -/
theorem ownRule?_reversed {d : Member} (h : m.ReadsAlone p) (hsource : p.source = [d]) :
    (r.fill (m.reversed id)).ownRule? d.name = some { member := d, source := [p.member] } := by
  refine Registry.fillMembers_find?_settled ?_
  have hmem : { member := d, source := [p.member] } ∈ (m.reversed id).rules :=
    mem_rules_reversed.mpr ⟨p, h.mem, h.custom, h.kept, hsource, rfl⟩
  have hfound : ((m.reversed id).rules.find? (·.member.name == d.name)).isSome = true :=
    List.find?_isSome.mpr ⟨_, hmem, by simp⟩
  obtain ⟨q, hq⟩ := Option.isSome_iff_exists.mp hfound
  have hname : q.member.name = d.name := by simpa using List.find?_some hq
  obtain ⟨p', hp', hcustom, hkept, hsource', hq'⟩ :=
    mem_rules_reversed.mp (List.mem_of_find?_eq_some hq)
  have hchain : p'.plainChain? = p.plainChain? := by
    rw [h.plainChain?_eq, hsource, MemberRule.plainChain?, hcustom, hkept, hsource',
      List.map_singleton, List.map_singleton, hname]
    rfl
  obtain rfl := h.alone p' hp' hchain
  obtain rfl : d = q.member := by simpa using hsource.symm.trans hsource'
  rw [hq, hq']

/-- No path rule is made for a single member. -/
theorem ownPathRule?_reversed_single (name : String) :
    (r.fill (m.reversed id)).ownPathRule? [name] = none := by
  refine List.find?_eq_none.mpr fun q hq => ?_
  obtain ⟨p, i, -, -, -, hlong, rfl⟩ := mem_pathRules_reversed.mp hq
  rw [beq_iff_eq]
  intro hpath
  have hlength := congrArg List.length hpath
  simp only [backwards, List.length_map, List.length_singleton] at hlength
  omega

/-- A longer chain is read back by the path rule for it. -/
theorem ownPathRule?_reversed (h : m.ReadsAlone p) (hlong : 2 ≤ p.source.length) :
    ∃ n, (r.fill (m.reversed id)).ownPathRule? (p.source.map (·.name)) =
      some (m.backwards p n) := by
  obtain ⟨i, hi⟩ := List.getElem?_of_mem h.mem
  have hmem : m.backwards p (id + i) ∈ (m.reversed id).pathRules :=
    mem_pathRules_reversed.mpr ⟨p, i, hi, h.custom, h.kept, hlong, rfl⟩
  have hfound : ((m.reversed id).pathRules.find? (·.path == p.source.map (·.name))).isSome = true :=
    List.find?_isSome.mpr ⟨_, hmem, by simp [backwards]⟩
  obtain ⟨q, hq⟩ := Option.isSome_iff_exists.mp hfound
  have hpath : q.path = p.source.map (·.name) := by simpa using List.find?_some hq
  obtain ⟨p', i', hp', hcustom, hkept, hlong', rfl⟩ :=
    mem_pathRules_reversed.mp (List.mem_of_find?_eq_some hq)
  have hsource : p'.source ≠ [] := by
    rintro hnil
    simp [hnil] at hlong'
  have hchain : p'.plainChain? = p.plainChain? := by
    rw [h.plainChain?_eq, ← hpath, MemberRule.plainChain?,
      if_neg (by simp [hcustom, hkept, hsource])]
    rfl
  obtain rfl := h.alone p' (List.mem_of_getElem? hp') hchain
  exact ⟨id + i', hq⟩

end Mapping

/-! ## §2  Steps -/

theorem Registry.requireMembers_of_isChain {r : Registry} : ∀ {t : Ty} {ms : List Member},
    r.IsChain t ms → r.requireMembers t (ms.map (·.name)) = .ok ms
  | _, [], _ => rfl
  | t, m :: ms, h => by
      rw [List.map_cons, requireMembers, requireMember_eq_ok.mpr h.1]
      show (r.requireMembers m.ty (ms.map (·.name)) >>= fun rest => .ok (m :: rest)) = _
      rw [requireMembers_of_isChain h.2]
      rfl

namespace Configuration

open DataStep

variable {c : Configuration} {model data : Ty} {map : Mapping} {p : MemberRule} {t : TypeTable}
  {limit : Nat} {name : String}

/-- Types that are equal or not both scalar are no literals that differ. -/
theorem literalsAgree_of_scalars {a b : Ty}
    (h : a = b ∨ ¬ (c.types.isScalar a = true ∧ c.types.isScalar b = true)) :
    c.LiteralsAgree a b := by
  refine h.imp_right fun hnot hboth => hnot ?_
  rw [Registry.isScalar, Registry.isScalar, hboth.1, hboth.2]
  exact ⟨rfl, rfl⟩

/-- Records that are mapped are read by their mapping. -/
theorem not_readAlike_of_mapped (hmodel : c.types.isRecord model = true)
    (hmap : c.mapping? data model = some map) : ¬ c.ReadAlike model data := by
  rintro (hformer | ⟨hliteral, -⟩)
  · simp [sharesFormer, hmap] at hformer
  · have hscalar := Registry.isScalar_of_record hmodel
    rw [Registry.isScalar, hliteral, Bool.true_or] at hscalar
    cases hscalar

theorem longestPathRule?_single (h : map.bases = []) (hpath : map.ownPathRule? [name] = none) :
    c.longestPathRule? map [name] = none := by
  rw [longestPathRule?_eq_none_iff]
  intro i hi
  obtain rfl : i = 0 := by simpa using hi
  rw [pathRule?_of_no_bases h]
  exact hpath

theorem longestPathRule?_whole {path : List String} {rule : PathRule} (h : map.bases = [])
    (hne : path ≠ []) (hpath : map.ownPathRule? path = some rule) :
    c.longestPathRule? map path = some (path.length, rule) := by
  obtain ⟨n, hn⟩ := Nat.exists_eq_succ_of_ne_zero (mt List.length_eq_zero_iff.mp hne)
  rw [longestPathRule?, hn, List.range_succ, List.reverse_append, List.reverse_singleton,
    List.singleton_append, List.findSome?_cons, List.take_of_length_le (Nat.le_of_eq hn),
    pathRule?_of_no_bases h, hpath]
  rfl

/-- A member that a rule reads from a chain is one step along the chain. -/
theorem dataPath_rule (hne : model ≠ data) (hmodel : c.types.isRecord model = true)
    (hmap : c.mapping? data model = some map) (hbases : map.bases = [])
    (hpath : map.ownPathRule? [name] = none) (hown : map.ownRule? name = some p)
    (hmember : c.types.member? model name = some p.member) (hcustom : p.custom = none)
    (hkept : p.ignored = false) (hsource : p.source ≠ [])
    (hliterals : c.LiteralsAgree p.member.ty (Registry.chainEnd data p.source)) :
    Returns (c.dataPath model data [name] (limit + 1)) t [.members p.source] t := by
  have hused : (p.isFed && !p.ignored) = true := by
    simp [MemberRule.isFed, hsource, hkept]
  have hstep : c.PlainStep model data name [] p.member t p.source t :=
    .rule (not_readAlike_of_mapped hmodel hmap) hmap (longestPathRule?_single hbases hpath)
      ((memberRule?_of_no_bases hbases name).trans hown) hused hcustom hliterals
  have hrest : Returns (c.dataPath model data [name] (limit + 1)) t
      (join (Configuration.appendStep [] (.members p.source)) []) t :=
    hstep.returns_dataPath hne hmember (returns_dataPath_nil.mpr ⟨rfl, rfl⟩)
  have hone : join (Configuration.appendStep [] (.members p.source)) [] = [.members p.source] := by
    simp [appendStep, appendMembers, hsource]
  exact hone ▸ hrest

/-- A path that has a rule of its own is one step by it. -/
theorem dataPath_pathRule {path : List String} {rule : PathRule} {ms : List Member}
    {params : List Parameter} {body : Expr} {ty : Ty} (hne : model ≠ data)
    (hmodel : c.types.isRecord model = true) (hmap : c.mapping? data model = some map)
    (hbases : map.bases = []) (hnonempty : path ≠ [])
    (hpath : map.ownPathRule? path = some rule)
    (hms : c.types.requireMembers model path = .ok ms)
    (hparts : rule.custom.lambdaParts? = some (params, body, ty)) :
    Returns (c.dataPath model data path (limit + 1)) t [.custom rule.custom] t := by
  obtain ⟨name, rest, rfl⟩ := List.exists_cons_of_ne_nil hnonempty
  have htaken : (name :: rest).take (name :: rest).length = name :: rest := List.take_length
  have hadvance : c.Advances model data name rest t
      ⟨.custom rule.custom, (ms.getLast?.map (·.ty)).getD model, body.ty,
        ((name :: rest).take (name :: rest).length).length - 1⟩ t :=
    .path (not_readAlike_of_mapped hmodel hmap) hmap
      (longestPathRule?_whole hbases hnonempty hpath) (htaken.symm ▸ hms) hparts
  rw [htaken, List.length_cons, Nat.add_sub_cancel] at hadvance
  refine (returns_dataPath_cons "" hne).mpr
    ⟨_, t, [], returns_advance.mpr hadvance, ?_, rfl⟩
  rw [List.drop_length]
  exact returns_dataPath_nil.mpr ⟨rfl, rfl⟩

end Configuration

/-! ## §3  Recasting an access -/

namespace Recaster

variable {w : Recaster} {x q : Parameter} {s : RecastState} {n : Nat}

theorem returns_param (hq : s.replacements.get? x = some q) (hne : q ≠ x) :
    Returns (w.recastWithin (n + 1) (.param x)) s (.made (.param q)) (s.lookUp w.types x.ty) := by
  have hreplace : Returns (w.replace x) s q (s.lookUp w.types x.ty) := by
    refine returns_replace.mpr ⟨s.replacements, s.fresh, ?_, rfl⟩
    rw [Replacements.replace, hq]
  simp only [recastWithin, node, param, returns_bind, returns_pure]
  exact ⟨q, _, hreplace, if_neg hne, rfl⟩

/-- A parameter whose type has another data type gets a new one. -/
theorem returns_replaceAll_one {data : Ty} (hnone : s.replacements.get? x = none)
    (hdata : s.table.dataType w.types x.ty = data) (hne : data ≠ x.ty) :
    Returns (w.replaceAll [x]) s [⟨s.fresh, x.name, data⟩]
      { s.lookUp w.types x.ty with
        replacements := ⟨(x.id, ⟨s.fresh, x.name, data⟩) :: s.replacements.entries⟩
        fresh := s.fresh + 1 } := by
  have hreplace := returns_replace (w := w) (p := x) (s := s) |>.mpr
    ⟨⟨(x.id, ⟨s.fresh, x.name, data⟩) :: s.replacements.entries⟩, s.fresh + 1, by
      rw [Replacements.replace, hnone, hdata]
      exact if_neg hne, rfl⟩
  simp only [replaceAll, returns_bind, returns_pure]
  exact ⟨_, _, hreplace, _, _, ⟨rfl, rfl⟩, rfl, rfl⟩

theorem convertsBack_of_scalars {a b : Ty}
    (h : a = b ∨ ¬ (w.types.isScalar a = true ∧ w.types.isScalar b = true)) :
    w.convertsBack a b = false := by
  unfold convertsBack
  rcases h with rfl | hnot
  · simp
  · grind

/-- A chain of members of the parameter is walked over its replacement, where it may be. -/
theorem returns_chain {ms : List Member} {steps : List DataStep} {walked : Expr} {T : TypeTable}
    (hinclude : w.asInclude = false) (hms : ms ≠ []) (hq : s.replacements.get? x = some q)
    (hne : q ≠ x)
    (hpath : Returns (w.config.dataPath x.ty q.ty (ms.map (·.name)) w.options.maxDepth) s.table
      steps s.table)
    (hwalk : w.walk (.param q) steps = .ok walked)
    (hback : steps.any (·.isCustom) = true →
      w.convertsBack walked.ty ((Expr.param x).select ms).ty = false)
    (hrelate : Returns (w.config.relate ((Expr.param x).select ms).ty walked.ty) s.table () T) :
    ∃ s', Returns (w.recastWithin (n + 2) ((Expr.param x).select ms)) s (.made walked) s' := by
  obtain ⟨a, m, hselect⟩ := Registry.isMember_select (e := .param x) (.inr hms)
  have hnode : w.node (w.recastWithin (n + 1)) ((Expr.param x).select ms) =
      w.member (w.recastWithin (n + 1)) ((Expr.param x).select ms) := by
    rw [hselect]
    rfl
  have hnames : ((Expr.param x).select ms).chainNames = ms.map (·.name) :=
    Registry.chainNames_select
  have hbase : ((Expr.param x).select ms).chainBase = .param x := Registry.chainBase_select
  have hsettle : Returns (w.settle ((Expr.param x).select ms).ty (steps.any (·.isCustom)) walked)
      (s.lookUp w.types x.ty) walked { s.lookUp w.types x.ty with table := T } := by
    have hplain : (steps.any (·.isCustom) &&
        w.convertsBack walked.ty ((Expr.param x).select ms).ty) = false := by
      cases hcustom : steps.any (·.isCustom) with
      | false => rfl
      | true => exact hback hcustom
    rw [settle, hplain]
    exact returns_bind.mpr ⟨(), _, RecastM.returns_onTable.mpr ⟨T, hrelate, rfl⟩,
      returns_pure.mpr ⟨rfl, rfl⟩⟩
  refine ⟨{ s.lookUp w.types x.ty with table := T }, ?_⟩
  rw [recastWithin, hnode, member, hnames, hbase]
  simp only [returns_bind, RecastM.returns_onTable]
  refine ⟨.made (.param q), _, returns_param hq hne, steps, _, ⟨_, hpath, rfl⟩, ?_⟩
  rw [Outcome.isKept, Bool.and_false, Bool.false_and, if_neg Bool.false_ne_true, hinclude]
  simp only [returns_bind, RecastM.returns_ofChecked, returns_pure, Bool.false_eq_true, if_false]
  exact ⟨walked, _, ⟨hwalk, rfl⟩, walked, _, hsettle, rfl, rfl⟩

end Recaster

namespace LambdaRecaster

variable {m : LambdaRecaster}

/-- A lambda that accesses a chain of its parameter, with the pair of its delegate and that of what
the chain comes to. -/
theorem returns_recast_chain {x : Parameter} {ms : List Member} {data : Ty} {n : Nat}
    {steps : List DataStep} {walked : Expr} {t t' : TypeTable} (hdepth : 3 ≤ m.options.maxDepth)
    (hms : ms ≠ []) (hne : data ≠ x.ty)
    (hmodelFunc : m.types.IsFunc (.func [x.ty] ((Expr.param x).select ms).ty))
    (hdataFunc : m.types.IsFunc (.func [data] walked.ty))
    (hseed : Returns (m.config.relate x.ty data) {} () t)
    (hdata : t.dataType m.types x.ty = data)
    (hpath : Returns (m.config.dataPath x.ty data (ms.map (·.name)) m.options.maxDepth) t steps t)
    (hwalk : ∀ w : Recaster, w.config = m.config →
      w.walk (.param ⟨n, x.name, data⟩) steps = .ok walked)
    (hback : steps.any (·.isCustom) = true → ∀ w : Recaster, w.config = m.config →
      w.convertsBack walked.ty ((Expr.param x).select ms).ty = false)
    (hrelate : Returns (m.config.relate ((Expr.param x).select ms).ty walked.ty) t () t') :
    ∃ s, Returns (m.recast (Registry.mkLambda [x] ((Expr.param x).select ms))
        (some ⟨.func [x.ty] ((Expr.param x).select ms).ty, .func [data] walked.ty⟩) false)
      { fresh := n } (.made (Registry.mkLambda [⟨n, x.name, data⟩] walked)) s := by
  have hsignature : ∀ {a b : Ty}, m.types.IsFunc (.func [a] b) →
      m.types.signature? (.func [a] b) = some ([a], b) := by
    rintro a b ⟨ps, ret, -, hred⟩
    rw [Registry.signature?, if_neg (by simp [hred])]
  -- One level each for the lambda, the chain and the parameter.
  obtain ⟨k, hk⟩ : ∃ k, m.options.maxDepth = k + 3 := ⟨_, (Nat.sub_add_cancel hdepth).symm⟩
  let w : Recaster := ⟨m.config, m.mapper, m.options, false⟩
  let s : RecastState := { fresh := n, table := t }
  have hpair : Returns (m.seed [x] (some ⟨.func [x.ty] ((Expr.param x).select ms).ty,
      .func [data] walked.ty⟩)) { fresh := n } () s := by
    refine returns_seedPair (hsignature hmodelFunc) (hsignature hdataFunc) rfl rfl ?_
    exact returns_bind.mpr ⟨(), s, RecastM.returns_onTable.mpr ⟨t, hseed, rfl⟩,
      returns_pure.mpr ⟨rfl, rfl⟩⟩
  let q : Parameter := ⟨n, x.name, data⟩
  have hq : q ≠ x := fun heq => hne (congrArg Parameter.ty heq)
  obtain ⟨s', hbody⟩ := Recaster.returns_chain (w := w) (x := x) (q := q) (n := k) rfl hms
    (s := { s.lookUp w.types x.ty with replacements := ⟨[(x.id, q)]⟩, fresh := n + 1 })
    (by simp [Replacements.get?]) hq hpath (hwalk w rfl) (fun hcustom => hback hcustom w rfl)
    hrelate
  have hreplaced : Returns (w.replaceAll [x]) s.cleared [q]
      { s.lookUp w.types x.ty with replacements := ⟨[(x.id, q)]⟩, fresh := n + 1 } :=
    Recaster.returns_replaceAll_one rfl hdata hne
  have hlambda : Returns (w.recast (Registry.mkLambda [x] ((Expr.param x).select ms))) s.cleared
      (.made (Registry.mkLambda [q] walked)) s' := by
    rw [Recaster.recast, show w.options.maxDepth = k + 3 from hk]
    refine returns_bind.mpr ⟨[q], _, hreplaced, returns_bind.mpr ⟨_, s', hbody, ?_⟩⟩
    exact returns_pure.mpr ⟨rfl, rfl⟩
  refine ⟨s', returns_recast.mpr ⟨_, _, _, s, _, rfl, hpair, hlambda, ?_⟩⟩
  have htyped : m.types.NodeTyped (.lambda [q] walked (.func [data] walked.ty)) := .inl rfl
  have hunfitted : m.finish (Registry.mkLambda [x] ((Expr.param x).select ms)) none
      (.made (Registry.mkLambda [q] walked)) = .ok (.made (Registry.mkLambda [q] walked)) := rfl
  exact finish_inferred (p := ⟨_, .func [data] walked.ty⟩) hunfitted rfl hdataFunc htyped
    hdataFunc.stripExpression_eq

end LambdaRecaster

/-! ## §4  There and back -/

/-- The configuration was planned without inclusion, with a mapping between two records and its
reverse, which no call was about. -/
structure Plan.Reversible (r : Registry) (calls : List Plan.Call) (c : Configuration) (p : TyPair)
    (f : Mapping) : Prop where
  planned : ∃ id id', (Plan.run r calls).finish id = .ok (c, id')
  noIncludes : c.NoIncludes
  apart : p.source ≠ p.destination
  source : r.isRecord p.source = true
  destination : r.isRecord p.destination = true
  asked : .alsoReverse p ∈ calls
  free : ∀ call ∈ calls, call.pair ≠ p.reversed
  mapped : c.mappingOf? p = some f

namespace Plan.Reversible

variable {r : Registry} {calls : List Plan.Call} {c : Configuration} {p : TyPair} {f : Mapping}
  {rule : MemberRule}

theorem types (h : Plan.Reversible r calls c p f) : c.types = r := by
  obtain ⟨id, id', hfinish⟩ := h.planned
  exact (Plan.finish_ok hfinish).2.1.trans (Plan.types_run r calls)

/-- The mapping is a planned one that was completed. -/
theorem completed (h : Plan.Reversible r calls c p f) :
    ∃ x ∈ (Plan.run r calls).planned, x.pair = p ∧ Plan.Completes r x f := by
  obtain ⟨id, id', hfinish⟩ := h.planned
  have hrecords := Plan.records_of_errors_nil (Plan.finish_ok hfinish).1
  have hends := Plan.run_endsIn hfinish
  obtain ⟨x, hx, hpair⟩ := List.mem_map.mp ((hrecords.mem_pairs p).mpr ⟨_, h.asked, rfl⟩)
  obtain ⟨f', hf', hcompletes⟩ := hends.completed x hx
  have hfound := hends.mappingOf? hf'
  rw [hcompletes.pair, hpair, h.mapped] at hfound
  obtain rfl := Option.some.inj hfound
  rw [hrecords.types] at hcompletes
  exact ⟨x, hx, hpair, hcompletes⟩

theorem pair (h : Plan.Reversible r calls c p f) : f.pair = p :=
  (Configuration.mappingOf?_mem h.mapped).2

theorem bases (h : Plan.Reversible r calls c p f) : f.bases = [] :=
  (h.noIncludes f (Configuration.mappingOf?_mem h.mapped).1).1

theorem coherent (h : Plan.Reversible r calls c p f) : f.Coherent r := by
  obtain ⟨x, hx, -, hcompletes⟩ := h.completed
  have hcoherent := (Plan.rooted_run r calls x hx).coherent_fill
  rw [hcompletes]
  exact ⟨hcoherent.member, hcoherent.source⟩

/-- The mapping of the reversed pair is the reverse, completed. -/
theorem reverse (h : Plan.Reversible r calls c p f) :
    ∃ n, c.mappingOf? p.reversed = some { r.fill (f.reversed n) with bases := [] } := by
  obtain ⟨x, hx, rfl, hcompletes⟩ := h.completed
  obtain ⟨id, id', hfinish⟩ := h.planned
  have hrecords := Plan.records_of_errors_nil (Plan.finish_ok hfinish).1
  have hends := Plan.run_endsIn hfinish
  have hfree : x.pair.reversed ∉ (Plan.run r calls).planned.map (·.pair) := by
    rw [hrecords.mem_pairs]
    rintro ⟨call, hcall, hreversed⟩
    exact h.free call hcall hreversed
  obtain ⟨g, hg, hreverses⟩ :=
    hends.reversed x hx ((hrecords.reverse x hx).mpr h.asked) hfree
  have hfound := hends.mappingOf? hg
  rw [hreverses.pair] at hfound
  obtain ⟨n, hreverses⟩ := hreverses
  rw [hrecords.types, (h.noIncludes g hg).1] at hreverses
  refine ⟨n, hfound.trans (congrArg some ?_)⟩
  rw [hreverses, hcompletes]
  rfl

end Plan.Reversible

/-- The two correspondences can be registered one after the other. -/
def Configuration.Registers (c : Configuration) (first second : Ty × Ty) : Prop :=
  ∃ t t', Returns (c.relate first.1 first.2) {} () t ∧ Returns (c.relate second.1 second.2) t () t'

theorem Registry.stripExpression_of_record {r : Registry} {t : Ty} (h : r.isRecord t = true) :
    r.stripExpression t = t := by
  rcases record_isRedefined_or h with hred | ⟨id, rfl⟩ | ⟨g, args, rfl⟩
  · cases t with
    | expression d => exact if_pos hred
    | _ => rfl
  · rfl
  · rfl

/-- A record gets the data type that it is registered with first. -/
theorem Configuration.dataType_relate {c : Configuration} {model data : Ty} {t : TypeTable}
    (hmodel : c.types.isRecord model = true) (hdata : c.types.isRecord data = true)
    (hne : model ≠ data) (h : Returns (c.relate model data) {} () t) :
    t.dataType c.types model = data := by
  have hstripped : c.stripped (model, data) = (model, data) := by
    rw [stripped, Registry.stripExpression_of_record hmodel,
      Registry.stripExpression_of_record hdata]
  have hnew : ¬ c.Settled {} (model, data) := by
    rintro (hsame | hknown)
    · rw [hstripped] at hsame
      exact hne hsame
    · cases hknown
  have hentry := get?_enter hnew
  rw [hstripped] at hentry
  cases returns_relate_iff.mp h with
  | skip settled _ => exact absurd settled hnew
  | add _ _ rest =>
      exact TypeTable.dataType_of_get? t c.types (TypeTable.get?_mono rest.grows.entries hentry)

namespace LambdaRecaster

section Accesses

variable {m : LambdaRecaster} {r : Registry} {calls : List Plan.Call} {p : TyPair} {f : Mapping}
  {rule : MemberRule} {x : Parameter}

/-- `x => x.d` -/
def access (x : Parameter) (d : Member) : Expr := Registry.mkLambda [x] (.member (.param x) d)

/-- `x => x.c₁ … cₙ` -/
def accessChain (x : Parameter) (ms : List Member) : Expr :=
  Registry.mkLambda [x] ((Expr.param x).select ms)

/-- The delegates of an access to the member of the rule and to the chain that it reads. -/
def accessPair (p : TyPair) (rule : MemberRule) : TyPair :=
  ⟨.func [p.destination] rule.member.ty, .func [p.source] (Registry.chainEnd p.source rule.source)⟩

/-- The member is accessed along the chain that it is read from. -/
theorem recast_access (h : Plan.Reversible r calls m.config p f) (hrule : f.ReadsAlone rule)
    (hown : f.ownRule? rule.member.name = some rule)
    (hpath : f.ownPathRule? [rule.member.name] = none)
    (hliterals : m.config.LiteralsAgree rule.member.ty (Registry.chainEnd p.source rule.source))
    (hmodel : m.types.IsFunc (accessPair p rule).source)
    (hdata : m.types.IsFunc (accessPair p rule).destination)
    (hregisters : m.config.Registers (p.destination, p.source)
      (rule.member.ty, Registry.chainEnd p.source rule.source))
    (hdepth : 3 ≤ m.options.maxDepth) (hx : x.ty = p.destination) (n : Nat) :
    ∃ s, Returns (m.recast (access x rule.member) (some (accessPair p rule)) false) { fresh := n }
      (.made (accessChain ⟨n, x.name, p.source⟩ rule.source)) s := by
  obtain ⟨i, name, ty⟩ := x
  subst hx
  obtain ⟨t, t', hseed, hrelate⟩ := hregisters
  have htypes : m.config.types = r := h.types
  have hsource : m.config.types.isRecord p.source = true := htypes ▸ h.source
  have hdestination : m.config.types.isRecord p.destination = true := htypes ▸ h.destination
  have hmember : m.config.types.member? p.destination rule.member.name = some rule.member := by
    rw [htypes, ← h.pair]
    exact h.coherent.member _ _ hown
  obtain ⟨k, hk⟩ : ∃ k, m.options.maxDepth = k + 1 := ⟨m.options.maxDepth - 1, by omega⟩
  have hsteps : Returns (m.config.dataPath p.destination p.source [rule.member.name]
      m.options.maxDepth) t [.members rule.source] t := by
    rw [hk]
    exact Configuration.dataPath_rule (Ne.symm h.apart) hdestination h.mapped h.bases hpath hown
      hmember hrule.custom hrule.kept hrule.source hliterals
  have hchain : ((Expr.param ⟨n, name, p.source⟩).select rule.source).ty =
      Registry.chainEnd p.source rule.source := Registry.ty_select
  have hrecast := @returns_recast_chain m ⟨i, name, p.destination⟩ [rule.member] p.source n
    [.members rule.source] ((Expr.param ⟨n, name, p.source⟩).select rule.source) t t' hdepth
    (List.cons_ne_nil _ _) h.apart hmodel (hchain ▸ hdata) hseed
    (Configuration.dataType_relate hdestination hsource (Ne.symm h.apart) hseed) hsteps
    (fun _ _ => rfl) (fun hcustom => by cases hcustom) (hchain ▸ hrelate)
  rw [hchain] at hrecast
  exact hrecast

/-- The reverse leads back to the member, by a rule or by a path rule. -/
theorem steps_back {c : Configuration} (h : Plan.Reversible r calls c p f)
    (hrule : f.ReadsAlone rule)
    (hliterals : c.LiteralsAgree (Registry.chainEnd p.source rule.source) rule.member.ty)
    (t : TypeTable) (limit : Nat) :
    ∃ steps, Returns (c.dataPath p.source p.destination (rule.source.map (·.name)) (limit + 1)) t
        steps t ∧ ∀ (w : Recaster) (q : Parameter), w.config = c → q.ty = p.destination →
          w.walk (.param q) steps = .ok (.member (.param q) rule.member) := by
  obtain ⟨k, hmap⟩ := h.reverse
  have htypes : c.types = r := h.types
  have hsource : c.types.isRecord p.source = true := htypes ▸ h.source
  have hchain : r.IsChain p.source rule.source := by
    have hrooted := h.coherent.source rule hrule.mem
    rwa [show f.source = p.source from congrArg TyPair.source h.pair] at hrooted
  -- No path rule stands in the way of a single member, and that of a longer chain takes all of it.
  match hds : rule.source with
  | [] => exact absurd hds hrule.source
  | [d] =>
      rw [hds] at hliterals hchain
      refine ⟨_, Configuration.dataPath_rule h.apart hsource hmap rfl
        (Mapping.ownPathRule?_reversed_single (r := r) d.name) (Mapping.ownRule?_reversed hrule hds)
        (htypes ▸ hchain.1) rfl rfl (List.cons_ne_nil _ _) hliterals, fun _ _ _ _ => rfl⟩
  | d :: d' :: ds =>
      obtain ⟨n, hpath⟩ : ∃ n, (r.fill (f.reversed k)).ownPathRule? (rule.source.map (·.name)) =
          some (f.backwards rule n) := Mapping.ownPathRule?_reversed hrule (by simp [hds])
      rw [← hds]
      refine ⟨_, Configuration.dataPath_pathRule h.apart hsource hmap rfl (by simp [hds]) hpath
        (htypes ▸ Registry.requireMembers_of_isChain hchain) rfl, fun w q hw hq => ?_⟩
      rw [Recaster.walk, Mapping.betaReduce_backwards (hq.trans (h.pair ▸ rfl))]
      rfl

/-- The chain that a member is read from is accessed as the member. -/
theorem recast_accessChain (h : Plan.Reversible r calls m.config p f) (hrule : f.ReadsAlone rule)
    (htypes : rule.member.ty = Registry.chainEnd p.source rule.source ∨
      ¬ (r.isScalar rule.member.ty = true ∧
        r.isScalar (Registry.chainEnd p.source rule.source) = true))
    (hmodel : m.types.IsFunc (accessPair p rule).source)
    (hdata : m.types.IsFunc (accessPair p rule).destination)
    (hregisters : m.config.Registers (p.source, p.destination)
      (Registry.chainEnd p.source rule.source, rule.member.ty))
    (hdepth : 3 ≤ m.options.maxDepth) (hx : x.ty = p.source) (n : Nat) :
    ∃ s, Returns (m.recast (accessChain x rule.source) (some (accessPair p rule).reversed) false)
      { fresh := n } (.made (access ⟨n, x.name, p.destination⟩ rule.member)) s := by
  obtain ⟨i, name, ty⟩ := x
  subst hx
  obtain ⟨t, t', hseed, hrelate⟩ := hregisters
  have hconfig : m.config.types = r := h.types
  have hsource : m.config.types.isRecord p.source = true := hconfig ▸ h.source
  have hdestination : m.config.types.isRecord p.destination = true := hconfig ▸ h.destination
  have hliterals : m.config.LiteralsAgree (Registry.chainEnd p.source rule.source) rule.member.ty :=
    Configuration.literalsAgree_of_scalars (hconfig ▸ htypes.imp Eq.symm (mt And.symm))
  obtain ⟨k, hk⟩ : ∃ k, m.options.maxDepth = k + 1 := ⟨m.options.maxDepth - 1, by omega⟩
  obtain ⟨steps, hsteps, hwalk⟩ := steps_back h hrule hliterals t k
  have hchain : ((Expr.param ⟨i, name, p.source⟩).select rule.source).ty =
      Registry.chainEnd p.source rule.source := Registry.ty_select
  have hback : steps.any (·.isCustom) = true → ∀ w : Recaster, w.config = m.config →
      w.convertsBack rule.member.ty
        ((Expr.param ⟨i, name, p.source⟩).select rule.source).ty = false := by
    intro _ w hw
    rw [hchain]
    refine Recaster.convertsBack_of_scalars ?_
    rw [show w.types = r from (congrArg Configuration.types hw).trans hconfig]
    exact htypes
  have hrecast := @returns_recast_chain m ⟨i, name, p.source⟩ rule.source p.destination n steps
    (.member (.param ⟨n, name, p.destination⟩) rule.member) t t' hdepth hrule.source
    (Ne.symm h.apart) (hchain ▸ hdata) hmodel hseed
    (Configuration.dataType_relate hsource hdestination h.apart hseed) (hk ▸ hsteps)
    (fun w hw => hwalk w _ hw rfl) hback (hchain ▸ hrelate)
  rw [hchain] at hrecast
  exact hrecast

/-- What is said of the mapping, the rule and the types of its ends. -/
structure Inverts (r : Registry) (calls : List Plan.Call) (m : LambdaRecaster) (p : TyPair)
    (f : Mapping) (rule : MemberRule) : Prop where
  reversible : Plan.Reversible r calls m.config p f
  alone : f.ReadsAlone rule
  types : rule.member.ty = Registry.chainEnd p.source rule.source ∨
    ¬ (r.isScalar rule.member.ty = true ∧
      r.isScalar (Registry.chainEnd p.source rule.source) = true)

/-- The accesses can be asked for as delegates, and the correspondences that they lead to can be
registered, in either direction. -/
structure Accessible (m : LambdaRecaster) (p : TyPair) (rule : MemberRule) : Prop where
  model : m.types.IsFunc (accessPair p rule).source
  data : m.types.IsFunc (accessPair p rule).destination
  there : m.config.Registers (p.destination, p.source)
    (rule.member.ty, Registry.chainEnd p.source rule.source)
  back : m.config.Registers (p.source, p.destination)
    (Registry.chainEnd p.source rule.source, rule.member.ty)

/-- **The reverse of a mapping leads back.**  In a configuration that was planned without inclusion,
with a mapping and its reverse, an access to a member that is read from a chain, by no other
rule and by no path rule, is recast to the chain, and the chain with the reversed pair to the access
again, but for the parameter.  Single members and longer chains are all the same. -/
theorem recast_reversed (h : Inverts r calls m p f rule)
    (hown : f.ownRule? rule.member.name = some rule)
    (hpath : f.ownPathRule? [rule.member.name] = none) (haccess : m.Accessible p rule)
    (hdepth : 3 ≤ m.options.maxDepth) (hx : x.ty = p.destination) (n n' : Nat) :
    ∃ s s', Returns (m.recast (access x rule.member) (some (accessPair p rule)) false)
        { fresh := n } (.made (accessChain ⟨n, x.name, p.source⟩ rule.source)) s ∧
      Returns (m.recast (accessChain ⟨n, x.name, p.source⟩ rule.source)
        (some (accessPair p rule).reversed) false)
        { fresh := n' } (.made (access ⟨n', x.name, p.destination⟩ rule.member)) s' := by
  have hliterals : m.config.LiteralsAgree rule.member.ty (Registry.chainEnd p.source rule.source) :=
    Configuration.literalsAgree_of_scalars (h.reversible.types.symm ▸ h.types)
  obtain ⟨s, hthere⟩ := recast_access h.reversible h.alone hown hpath hliterals haccess.model
    haccess.data haccess.there hdepth hx n
  obtain ⟨s', hback⟩ := recast_accessChain (x := ⟨n, x.name, p.source⟩) h.reversible h.alone h.types
    haccess.model haccess.data haccess.back hdepth rfl n'
  exact ⟨s, s', hthere, hback⟩

end Accesses

/-! ### A flattened member -/

namespace Flattened

def child : Ty := .declared 0

def source : Ty := .declared 1

def destination : Ty := .declared 2

def pair : TyPair := ⟨source, destination⟩

def registry : Registry :=
  { declarations := [.record "Child" none [⟨"Value", .int32⟩],
      .record "Source" none [⟨"Value", .int32⟩, ⟨"Child", child⟩],
      .record "Dest" none [⟨"Value", .int32⟩, ⟨"ChildValue", .int32⟩]] }

def requests : List Plan.Call := [.start pair, .alsoReverse pair]

/-- The member is read from the value of the child. -/
def flattened : MemberRule :=
  { member := ⟨"ChildValue", .int32⟩, source := [⟨"Child", child⟩, ⟨"Value", .int32⟩] }

def forward : Mapping :=
  { source := source
    destination := destination
    rules := [{ member := ⟨"Value", .int32⟩, source := [⟨"Value", .int32⟩] }, flattened] }

def mapped : Configuration :=
  { types := registry
    maps := [forward, registry.fill (forward.reversed 0)] }

def recaster : LambdaRecaster := ofConfig mapped {}

theorem planned : (Plan.run registry requests).finish 0 = .ok (mapped, 2) := rfl

end Flattened

open Flattened in
theorem recast_reversed_flattened : Inverts registry requests recaster pair forward flattened ∧
    recaster.Accessible pair flattened ∧ ∃ s s',
      Returns (recaster.recast (access ⟨0, "x", destination⟩ ⟨"ChildValue", .int32⟩)
          (some ⟨.func [destination] .int32, .func [source] .int32⟩) false) { fresh := 1 }
        (.made (accessChain ⟨1, "x", source⟩ [⟨"Child", child⟩, ⟨"Value", .int32⟩])) s ∧
      Returns (recaster.recast
          (accessChain ⟨1, "x", source⟩ [⟨"Child", child⟩, ⟨"Value", .int32⟩])
          (some ⟨.func [source] .int32, .func [destination] .int32⟩) false) { fresh := 2 }
        (.made (access ⟨2, "x", destination⟩ ⟨"ChildValue", .int32⟩)) s' := by
  have hreversible : Plan.Reversible registry requests mapped pair forward :=
    { planned := ⟨0, 2, planned⟩
      noIncludes := by
        unfold Configuration.NoIncludes
        decide
      apart := by decide
      source := rfl
      destination := rfl
      asked := List.mem_cons_of_mem _ List.mem_cons_self
      free := by decide
      mapped := rfl }
  have halone : forward.ReadsAlone flattened :=
    { mem := List.mem_cons_of_mem _ List.mem_cons_self
      custom := rfl
      kept := rfl
      source := List.cons_ne_nil _ _
      alone := by
        intro q hq hchain
        rcases List.mem_cons.mp hq with rfl | hq
        · exact absurd hchain (by decide)
        · exact List.mem_singleton.mp hq }
  have hinverts : Inverts registry requests recaster pair forward flattened :=
    ⟨hreversible, halone, .inl rfl⟩
  have haccess : recaster.Accessible pair flattened :=
    ⟨⟨_, _, rfl, rfl⟩, ⟨_, _, rfl, rfl⟩, ⟨_, _, rfl, rfl⟩, ⟨_, _, rfl, rfl⟩⟩
  exact ⟨hinverts, haccess, recast_reversed (x := ⟨0, "x", destination⟩) hinverts rfl rfl haccess
    (by decide) rfl 1 2⟩

/-! ### Accesses that do not come back -/

/-- The access is recast there and back, whatever comes in between. -/
def ComesBack (m : LambdaRecaster) (p : TyPair) (rule : MemberRule) (x : Parameter) (n n' : Nat) :
    Prop :=
  ∃ o s o' s' y,
    Returns (m.recast (access x rule.member) (some (accessPair p rule)) false) { fresh := n } o s ∧
      Returns (m.recast (o.on (access x rule.member)) (some (accessPair p rule).reversed) false)
        { fresh := n' } o' s' ∧
      o'.on (o.on (access x rule.member)) = access y rule.member

namespace Single

def source : Ty := .declared 0

def destination : Ty := .declared 1

def pair : TyPair := ⟨source, destination⟩

/-- A member of the type `t`, read from a number of the same name. -/
def registry (t : Ty) (redefined : List (Ty × RecordInfo)) : Registry :=
  { declarations := [.record "Source" none [⟨"Value", .int32⟩, ⟨"Other", .int32⟩],
      .record "Dest" none [⟨"Value", t⟩]]
    redefined := redefined }

def requests (paths : List PathRule) : List Plan.Call :=
  .start pair :: paths.map (fun path => .readPathBy pair path.path (.ok path.custom)) ++
    [.alsoReverse pair]

def single (t : Ty) : MemberRule := { member := ⟨"Value", t⟩, source := [⟨"Value", .int32⟩] }

def forward (t : Ty) (paths : List PathRule) : Mapping :=
  { source := source, destination := destination, rules := [single t], pathRules := paths }

def recaster (t : Ty) (redefined : List (Ty × RecordInfo)) (paths : List PathRule)
    (options : RecastOptions) : LambdaRecaster :=
  .ofConfig
    { types := registry t redefined
      maps := [forward t paths, (registry t redefined).fill ((forward t paths).reversed 0)] }
    options

theorem inverts {t : Ty} {redefined : List (Ty × RecordInfo)} {paths : List PathRule}
    {options : RecastOptions}
    (hplanned : (Plan.run (registry t redefined) (requests paths)).finish 0 =
      .ok ((recaster t redefined paths options).config, 1))
    (hsource : (registry t redefined).isRecord source = true)
    (hdestination : (registry t redefined).isRecord destination = true)
    (htypes : t = .int32 ∨ (registry t redefined).isScalar t = false) :
    Inverts (registry t redefined) (requests paths) (recaster t redefined paths options) pair
      (forward t paths) (single t) := by
  have hcalls : ∀ call ∈ requests paths, call.pair = pair := by
    refine List.forall_mem_cons.mpr ⟨rfl, List.forall_mem_append.mpr ⟨?_, ?_⟩⟩
    · exact List.forall_mem_map.mpr fun _ _ => rfl
    · exact List.forall_mem_singleton.mpr rfl
  have hincludes : (recaster t redefined paths options).config.NoIncludes :=
    List.forall_mem_cons.mpr ⟨⟨rfl, rfl⟩, List.forall_mem_singleton.mpr ⟨rfl, rfl⟩⟩
  refine ⟨⟨⟨0, 1, hplanned⟩, hincludes, by decide, hsource, hdestination, ?_, ?_, rfl⟩, ?_, ?_⟩
  · exact List.mem_append_right _ List.mem_cons_self
  · intro call hcall
    rw [hcalls call hcall]
    decide
  · exact ⟨List.mem_singleton_self _, rfl, rfl, List.cons_ne_nil _ _,
      fun q hq _ => List.mem_singleton.mp hq⟩
  · exact htypes.imp id fun hnot hboth => by simp_all [single]

/-- `s => s.Other` -/
def other : PathRule := ⟨["Value"], access ⟨0, "s", source⟩ ⟨"Other", .int32⟩⟩

/-- `Func<Int32, Boolean>` -/
def test : Ty := .func [.int32] .boolean

/-- `Func<Dest, Int32>` as a record. -/
def redefinition : List (Ty × RecordInfo) :=
  [(.func [destination] .int32, ⟨"Named", none, [], none⟩)]

/-! A member that there are two of, the first left out and the second read by convention. -/

def twofold : Registry :=
  { declarations := [.record "Source" none [⟨"Value", .int32⟩],
      .record "Dest" (some (.anonymous [⟨"Value", .int32⟩, ⟨"Value", .int32⟩])) []] }

def twofoldRequests : List Plan.Call := [.start pair, .leaveOut pair "Value", .alsoReverse pair]

def twofoldForward : Mapping :=
  { source := source
    destination := destination
    rules := [{ member := ⟨"Value", .int32⟩, ignored := true }, single .int32] }

def twofoldRecaster : LambdaRecaster :=
  .ofConfig
    { types := twofold, maps := [twofoldForward, twofold.fill (twofoldForward.reversed 0)] } {}

theorem twofold_inverts :
    Inverts twofold twofoldRequests twofoldRecaster pair twofoldForward (single .int32) := by
  have hplanned : (Plan.run twofold twofoldRequests).finish 0 =
      .ok (twofoldRecaster.config, 2) := rfl
  have hincludes : twofoldRecaster.config.NoIncludes :=
    List.forall_mem_cons.mpr ⟨⟨rfl, rfl⟩, List.forall_mem_singleton.mpr ⟨rfl, rfl⟩⟩
  refine ⟨⟨⟨0, 2, hplanned⟩, hincludes, by decide, rfl, rfl, ?_, by decide, rfl⟩, ?_, .inl rfl⟩
  · exact List.mem_cons_of_mem _ (List.mem_cons_of_mem _ List.mem_cons_self)
  · refine ⟨List.mem_cons_of_mem _ List.mem_cons_self, rfl, rfl, List.cons_ne_nil _ _, ?_⟩
    intro q hq hchain
    rcases List.mem_cons.mp hq with rfl | hq
    · exact absurd hchain (by decide)
    · exact List.mem_singleton.mp hq

end Single

theorem not_comesBack_there {m : LambdaRecaster} {p : TyPair} {rule : MemberRule} {x : Parameter}
    {n n' : Nat} (e : MappingError)
    (h : ((m.recast (access x rule.member) (some (accessPair p rule)) false).run
      { fresh := n }).1 = .error e) : ¬ m.ComesBack p rule x n n' := by
  rintro ⟨o, s, o', s', y, hthere, -, -⟩
  cases h.symm.trans (congrArg Prod.fst hthere)

theorem not_comesBack_back {m : LambdaRecaster} {p : TyPair} {rule : MemberRule} {x : Parameter}
    {n n' : Nat} (o : Outcome) (e : MappingError)
    (hthere : ((m.recast (access x rule.member) (some (accessPair p rule)) false).run
      { fresh := n }).1 = .ok o)
    (h : ((m.recast (o.on (access x rule.member)) (some (accessPair p rule).reversed) false).run
      { fresh := n' }).1 = .error e) : ¬ m.ComesBack p rule x n n' := by
  rintro ⟨o₁, s, o', s', y, hthere₁, hback, -⟩
  obtain rfl := Except.ok.inj (hthere.symm.trans (congrArg Prod.fst hthere₁))
  cases h.symm.trans (congrArg Prod.fst hback)

open Single in
/-- None of the conditions can be left out: of two members of one name the first is accessed; a path
rule for the member comes before its rule; a delegate does not correspond to a number; no lambda is
of a delegate type that has been redefined as a record; and recasting is cut off where it may not go
deep enough. -/
theorem recast_reversed_fails :
    (¬ ∀ r calls m p f rule x n n', Inverts r calls m p f rule →
      f.ownPathRule? [rule.member.name] = none → m.Accessible p rule →
      3 ≤ m.options.maxDepth → x.ty = p.destination → m.ComesBack p rule x n n') ∧
    (¬ ∀ r calls m p f rule x n n', Inverts r calls m p f rule →
      f.ownRule? rule.member.name = some rule → m.Accessible p rule →
      3 ≤ m.options.maxDepth → x.ty = p.destination → m.ComesBack p rule x n n') ∧
    (¬ ∀ r calls m p f rule x n n', Inverts r calls m p f rule →
      f.ownRule? rule.member.name = some rule → f.ownPathRule? [rule.member.name] = none →
      m.types.IsFunc (accessPair p rule).source → m.types.IsFunc (accessPair p rule).destination →
      3 ≤ m.options.maxDepth → x.ty = p.destination → m.ComesBack p rule x n n') ∧
    (¬ ∀ r calls m p f rule x n n', Inverts r calls m p f rule →
      f.ownRule? rule.member.name = some rule → f.ownPathRule? [rule.member.name] = none →
      m.config.Registers (p.destination, p.source)
        (rule.member.ty, Registry.chainEnd p.source rule.source) →
      m.config.Registers (p.source, p.destination)
        (Registry.chainEnd p.source rule.source, rule.member.ty) → 3 ≤ m.options.maxDepth →
      x.ty = p.destination → m.ComesBack p rule x n n') ∧
    ¬ ∀ r calls m p f rule x n n', Inverts r calls m p f rule →
      f.ownRule? rule.member.name = some rule → f.ownPathRule? [rule.member.name] = none →
      m.Accessible p rule → x.ty = p.destination → m.ComesBack p rule x n n' := by
  let x : Parameter := ⟨1, "x", destination⟩
  refine ⟨fun h => ?_, fun h => ?_, fun h => ?_, fun h => ?_, fun h => ?_⟩
  · have haccess : twofoldRecaster.Accessible pair (single .int32) :=
      ⟨⟨_, _, rfl, rfl⟩, ⟨_, _, rfl, rfl⟩, ⟨_, _, rfl, rfl⟩, ⟨_, _, rfl, rfl⟩⟩
    exact not_comesBack_there (.unmappedMember "Dest" "Value" "Value") rfl
      (h _ _ _ _ _ _ x 2 3 twofold_inverts rfl haccess (by decide) rfl)
  · have hinverts : Inverts (registry .int32 []) (requests [other]) (recaster .int32 [] [other] {})
        pair (forward .int32 [other]) (single .int32) := inverts rfl rfl rfl (.inl rfl)
    have haccess : (recaster .int32 [] [other] {}).Accessible pair (single .int32) :=
      ⟨⟨_, _, rfl, rfl⟩, ⟨_, _, rfl, rfl⟩, ⟨_, _, rfl, rfl⟩, ⟨_, _, rfl, rfl⟩⟩
    exact not_comesBack_back (.made (accessChain ⟨2, "x", source⟩ [⟨"Other", .int32⟩]))
      (.unmappedMember "Source" "Other" "Other") rfl rfl
      (h _ _ _ _ _ _ x 2 3 hinverts rfl haccess (by decide) rfl)
  · have hinverts : Inverts (registry test []) (requests []) (recaster test [] [] {}) pair
        (forward test []) (single test) := inverts rfl rfl rfl (.inr rfl)
    exact not_comesBack_there
      (.invalidArgument "Func<Int32, Boolean> is a delegate type but Int32 is not") rfl
      (h _ _ _ _ _ _ x 2 3 hinverts rfl rfl ⟨_, _, rfl, rfl⟩ ⟨_, _, rfl, rfl⟩ (by decide) rfl)
  · have hinverts : Inverts (registry .int32 redefinition) (requests [])
        (recaster .int32 redefinition [] {}) pair (forward .int32 []) (single .int32) :=
      inverts rfl rfl rfl (.inl rfl)
    exact not_comesBack_there (.invalidArgument "Func<Dest, Int32> is not a delegate type") rfl
      (h _ _ _ _ _ _ x 2 3 hinverts rfl rfl ⟨_, _, rfl, rfl⟩ ⟨_, _, rfl, rfl⟩ (by decide) rfl)
  · have hinverts : Inverts (registry .int32 []) (requests [])
        (recaster .int32 [] [] { maxDepth := 2 }) pair (forward .int32 []) (single .int32) :=
      inverts rfl rfl rfl (.inl rfl)
    have haccess : (recaster .int32 [] [] { maxDepth := 2 }).Accessible pair (single .int32) :=
      ⟨⟨_, _, rfl, rfl⟩, ⟨_, _, rfl, rfl⟩, ⟨_, _, rfl, rfl⟩, ⟨_, _, rfl, rfl⟩⟩
    exact not_comesBack_there (.recursionLimit 2) rfl
      (h _ _ _ _ _ _ x 2 3 hinverts rfl rfl haccess rfl)

end LambdaRecaster

end Recast
