import Mathlib.Data.List.Induction
import Mathlib.Data.List.Nodup
import Recast.Proofs.Planning

/-! # Plans call by call

The calls of a plan as data, and what a plan holds after any sequence of them.

- `Plan.Call`, `Plan.run` — the calls, and the plan that they lead to.
- `Plan.Call.effect` — what a call does to the mapping of its pair, or its failure.
- `Plan.Records` — what a plan holds after calls that did not fail, kept by every call
  (`Plan.Records.apply`) and so by every sequence of them (`Plan.records_run`).
- `Plan.EndsIn` — the mappings of the configuration: the planned ones, filled in, and the
  reverses that were asked for (`Plan.finish_endsIn`).
- `Plan.finish_populatesMembers`, `Plan.finish_coherent` — its rules hold members of the types.
-/

namespace Recast

namespace Plan

/-! ## §1  Calls -/

/-- The calls of a plan, each with the pair of the mapping that it is about. -/
inductive Call where
  | start (p : TyPair)
  | readBy (p : TyPair) (name : String) (custom : Checked Expr)
  | readFrom (p : TyPair) (name : String) (path : List String)
  | leaveOut (p : TyPair) (name : String)
  | readPathBy (p : TyPair) (path : List String) (custom : Checked Expr)
  | inheritFrom (p base : TyPair)
  | passOnTo (p derived : TyPair)
  | alsoReverse (p : TyPair)

def Call.pair : Call → TyPair
  | .start p | .readBy p _ _ | .readFrom p _ _ | .leaveOut p _ | .readPathBy p _ _
  | .inheritFrom p _ | .passOnTo p _ | .alsoReverse p => p

/-- The plan after one more call. -/
def apply (d : Plan) : Call → Plan
  | .start p => d.start p
  | .readBy p name custom => d.readBy p name custom
  | .readFrom p name path => d.readFrom p name path
  | .leaveOut p name => d.leaveOut p name
  | .readPathBy p path custom => d.readPathBy p path custom
  | .inheritFrom p base => d.inheritFrom p base
  | .passOnTo p derived => d.passOnTo p derived
  | .alsoReverse p => d.alsoReverse p

/-- The plan that the calls lead to. -/
def run (r : Registry) (calls : List Call) : Plan := calls.foldl apply { types := r }

theorem run_snoc (r : Registry) (calls : List Call) (call : Call) :
    run r (calls ++ [call]) = (run r calls).apply call := by
  unfold run
  rw [List.foldl_append]
  rfl

theorem reached_run (r : Registry) (calls : List Call) : Reached r (run r calls) := by
  induction calls using List.reverseRecOn with
  | nil => exact .empty
  | append_singleton calls call ih =>
      rw [run_snoc]
      cases call with
      | start p => exact .start p ih
      | readBy p name custom => exact .readBy p name custom ih
      | readFrom p name path => exact .readFrom p name path ih
      | leaveOut p name => exact .leaveOut p name ih
      | readPathBy p path custom => exact .readPathBy p path custom ih
      | inheritFrom p base => exact .inheritFrom p base ih
      | passOnTo p derived => exact .passOnTo p derived ih
      | alsoReverse p => exact .alsoReverse p ih

/-! ## §2  What a call does -/

/-- The rule for a member that a call asks for, if it is about one. -/
def Call.asksFor (r : Registry) : Call → Option (Checked MemberRule)
  | .readBy p name custom => some do
      let m ← r.requireMember p.destination name
      let custom ← custom
      pure { member := m, custom := some custom }
  | .readFrom p name path => some do
      let m ← r.requireMember p.destination name
      let chain ← ({ types := r } : Plan).plainPath p.source path
      pure { member := m, source := chain }
  | .leaveOut p name => some do
      let m ← r.requireMember p.destination name
      pure { member := m, ignored := true }
  | _ => none

end Plan

namespace PlannedMapping

def fresh (p : TyPair) : PlannedMapping :=
  { map := { source := p.source, destination := p.destination } }

def pair (x : PlannedMapping) : TyPair := x.map.pair

theorem pair_fresh (p : TyPair) : (fresh p).pair = p := rfl

/-- The rule in place of the one that its member has. -/
def withRule (x : PlannedMapping) (rule : MemberRule) : PlannedMapping :=
  { x with map := { x.map with
      rules := x.map.rules.filter (·.member.name != rule.member.name) ++ [rule] } }

def setRules (x : PlannedMapping) (rules : List MemberRule) : PlannedMapping :=
  { x with map := { x.map with rules := rules } }

def withPathRule (x : PlannedMapping) (rule : PathRule) : PlannedMapping :=
  { x with map := { x.map with
      pathRules := x.map.pathRules.filter (·.path != rule.path) ++ [rule] } }

end PlannedMapping

namespace Plan

/-- What a call does to the mapping of its pair. -/
def Call.effect (r : Registry) (call : Call) : Checked (PlannedMapping → PlannedMapping) :=
  match call.asksFor r with
  | some rule => (fun rule x => x.withRule rule) <$> rule
  | none =>
    match call with
    | .readPathBy p path custom => do
        let _ ← ({ types := r } : Plan).plainPath p.destination path
        let custom ← custom
        pure fun x => x.withPathRule ⟨path, custom⟩
    | .inheritFrom _ base =>
        pure fun x => { x with map := { x.map with bases := addOnce x.map.bases base } }
    | .passOnTo _ derived =>
        pure fun x => { x with map := { x.map with derived := addOnce x.map.derived derived } }
    | .alsoReverse _ => pure fun x => { x with reverse := true }
    | _ => pure id

variable {r : Registry} {d : Plan} {calls : List Call} {call : Call}
  {f : PlannedMapping → PlannedMapping}

theorem plainPath_eq (h : d.types = r) : ∀ (t : Ty) (names : List String),
    d.plainPath t names = ({ types := r } : Plan).plainPath t names
  | _, [] => rfl
  | t, name :: names => by
      simp only [plainPath, plainMember, plainPath_eq h, h]

theorem attempt_eq (p : TyPair) (rule : Checked MemberRule) : d.attempt p rule =
    match (fun rule (x : PlannedMapping) => x.withRule rule) <$> rule with
    | .ok f => d.update p f
    | .error e => d.fail e := by
  cases rule <;> rfl

/-- A call changes the mapping of its pair, or fails. -/
theorem apply_eq (call : Call) : d.apply call =
    match call.effect d.types with
    | .ok f => d.update call.pair f
    | .error e => d.fail e := by
  cases call with
  | start p => simp [apply, Call.effect, Call.asksFor, update, Call.pair, pure, Except.pure]
  | readBy p name custom => exact attempt_eq p _
  | readFrom p name path =>
      simp only [apply, readFrom, plainPath_eq rfl]
      exact attempt_eq p _
  | leaveOut p name => exact attempt_eq p _
  | readPathBy p path custom =>
      simp only [apply, readPathBy, Call.effect, Call.asksFor, plainPath_eq rfl]
      cases ({ types := d.types } : Plan).plainPath p.destination path with
      | error e => rfl
      | ok ms => cases custom <;> rfl
  | inheritFrom p base => rfl
  | passOnTo p derived => rfl
  | alsoReverse p => rfl

theorem Call.effect_ok (h : call.effect r = .ok f) :
    (∃ rule, call.asksFor r = some (.ok rule) ∧ f = (·.withRule rule)) ∨
      call.asksFor r = none ∧ ((∃ path, f = (·.withPathRule path)) ∨
        ∀ x, (f x).pair = x.pair ∧ (f x).map.rules = x.map.rules ∧
          (f x).map.pathRules = x.map.pathRules ∧
          ∀ rules, f (x.setRules rules) = (f x).setRules rules) := by
  unfold effect at h
  split at h
  · rename_i rule hasks
    cases rule with
    | error e => cases h
    | ok rule =>
        cases h
        exact .inl ⟨rule, hasks, rfl⟩
  · rename_i hasks
    refine .inr ⟨hasks, ?_⟩
    split at h
    · simp only [Checked.bind_eq_ok, Checked.pure_eq_ok] at h
      obtain ⟨_, -, custom, -, rfl⟩ := h
      exact .inl ⟨_, rfl⟩
    all_goals
      cases h
      exact .inr fun x => ⟨rfl, rfl, rfl, fun _ => rfl⟩

theorem types_run (r : Registry) (calls : List Call) : (run r calls).types = r :=
  (reached_run r calls).rooted.1

theorem rooted_run (r : Registry) (calls : List Call) :
    ∀ x ∈ (run r calls).planned, x.map.Rooted r := by
  intro x hx
  have hrooted := (reached_run r calls).rooted.2 x hx
  rwa [types_run] at hrooted

theorem errors_start (p : TyPair) : (d.start p).errors = d.errors := by
  unfold start
  split <;> rfl

theorem errors_update (p : TyPair) : (d.update p f).errors = d.errors := errors_start p

/-- Nothing fails in a plan exactly when none of its calls does. -/
theorem run_errors_nil :
    (run r calls).errors = [] ↔ ∀ call ∈ calls, ∃ f, call.effect r = .ok f := by
  induction calls using List.reverseRecOn with
  | nil => simp [run]
  | append_singleton calls call ih =>
      rw [run_snoc, apply_eq, types_run]
      cases heffect : call.effect r with
      | error e => simp [fail, heffect]
      | ok f =>
          simp only [errors_update, ih, List.forall_mem_append, List.forall_mem_singleton,
            heffect, Except.ok.injEq, exists_eq', and_true]

end Plan

/-! ## §3  Rules replace each other -/

namespace PlannedMapping

variable {x : PlannedMapping} {rule : MemberRule} {path : PathRule} {name : String}

theorem find?_filter_ne {α β : Type} [BEq β] [LawfulBEq β] [DecidableEq β] (key : α → β) (k k' : β)
    (xs : List α) : (xs.filter (key · != k)).find? (key · == k') =
      if k = k' then none else xs.find? (key · == k') := by
  rw [List.find?_filter]
  by_cases hk : k = k'
  · rw [if_pos hk, List.find?_eq_none]
    simp [hk]
  · have hkept : ∀ a, decide ((key a != k) = true ∧ (key a == k') = true) = (key a == k') := by
      intro a
      by_cases ha : key a = k'
      · simp [ha, Ne.symm hk]
      · simp [ha]
    rw [if_neg hk]
    simp only [hkept]

theorem ownRule?_withRule : (x.withRule rule).map.ownRule? name =
    if rule.member.name = name then some rule else x.map.ownRule? name := by
  unfold withRule Mapping.ownRule?
  rw [List.find?_append, List.find?_singleton,
    find?_filter_ne (fun p : MemberRule => p.member.name)]
  by_cases hname : rule.member.name = name
  · rw [if_pos hname, if_pos hname, if_pos (by simpa using hname), Option.none_or]
  · rw [if_neg hname, if_neg hname, if_neg (by simpa using hname), Option.or_none]

/-- Rules are for different members, and path rules for different paths. -/
structure Distinct (x : PlannedMapping) : Prop where
  rules : (x.map.rules.map (·.member.name)).Nodup
  paths : (x.map.pathRules.map (·.path)).Nodup

theorem nodup_replace {α β : Type} [BEq β] [LawfulBEq β] (key : α → β) {a : α} {xs : List α}
    (h : (xs.map key).Nodup) : ((xs.filter (key · != key a) ++ [a]).map key).Nodup := by
  rw [List.map_append, List.nodup_append]
  refine ⟨h.sublist (List.filter_sublist.map key), List.nodup_singleton _, ?_⟩
  intro k hk k' hk' heq
  obtain ⟨b, hb, rfl⟩ := List.mem_map.mp hk
  have hne : key b ≠ key a := by simpa using (List.mem_filter.mp hb).2
  exact hne (heq.trans (by simpa using hk'))

theorem Distinct.withRule (h : x.Distinct) : (x.withRule rule).Distinct :=
  ⟨nodup_replace (fun q : MemberRule => q.member.name) h.rules, h.paths⟩

theorem Distinct.withPathRule (h : x.Distinct) : (x.withPathRule path).Distinct :=
  ⟨h.rules, nodup_replace (fun q : PathRule => q.path) h.paths⟩

end PlannedMapping

namespace Plan

variable {r : Registry} {d : Plan} {calls : List Call} {call : Call}
  {f : PlannedMapping → PlannedMapping} {x : PlannedMapping} {p : TyPair} {name : String}

/-- The rule for the member of the pair that the call asks for. -/
def Call.rule? (r : Registry) (p : TyPair) (name : String) (call : Call) : Option MemberRule :=
  ((call.asksFor r).bind Except.toOption).filter fun rule =>
    call.pair == p && rule.member.name == name

/-- The rule that was asked for last. -/
def lastRule? (r : Registry) (calls : List Call) (p : TyPair) (name : String) :
    Option MemberRule :=
  calls.reverse.findSome? (Call.rule? r p name)

theorem lastRule?_snoc : lastRule? r (calls ++ [call]) p name =
    (call.rule? r p name).or (lastRule? r calls p name) := by
  unfold lastRule?
  rw [List.reverse_append, List.reverse_singleton, List.singleton_append, List.findSome?_cons]
  cases call.rule? r p name <;> rfl

theorem Call.rule?_of_pair_ne (h : call.pair ≠ p) : call.rule? r p name = none := by
  simp [Call.rule?, h]

theorem Call.effect_pair (h : call.effect r = .ok f) : (f x).pair = x.pair := by
  rcases effect_ok h with ⟨rule, -, rfl⟩ | ⟨-, ⟨path, rfl⟩ | hsame⟩
  · rfl
  · rfl
  · exact (hsame x).1

theorem Call.effect_rule (h : call.effect r = .ok f) :
    (f x).map.ownRule? name = (call.rule? r call.pair name).or (x.map.ownRule? name) := by
  rcases effect_ok h with ⟨rule, hasks, rfl⟩ | ⟨hasks, ⟨path, rfl⟩ | hsame⟩
  · rw [PlannedMapping.ownRule?_withRule, rule?, hasks]
    by_cases hname : rule.member.name = name
    · simp [Except.toOption, Option.filter_some, hname]
    · simp [Except.toOption, Option.filter_some, hname]
  · rw [rule?, hasks]
    rfl
  · rw [rule?, hasks, Mapping.ownRule?, (hsame x).2.1]
    rfl

theorem Call.effect_distinct (h : call.effect r = .ok f) (hx : x.Distinct) : (f x).Distinct := by
  rcases effect_ok h with ⟨rule, -, rfl⟩ | ⟨-, ⟨path, rfl⟩ | hsame⟩
  · exact hx.withRule
  · exact hx.withPathRule
  · obtain ⟨-, hrules, hpaths, -⟩ := hsame x
    exact ⟨by rw [hrules]; exact hx.rules, by rw [hpaths]; exact hx.paths⟩

theorem Call.effect_reverse (h : call.effect r = .ok f) :
    (f x).reverse = true ↔ x.reverse = true ∨ call = .alsoReverse call.pair := by
  cases call with
  | alsoReverse p =>
      cases h
      simp [Call.pair]
  | start p | inheritFrom p base | passOnTo p derived =>
      cases h
      simp
  | readBy p name custom | readFrom p name path | leaveOut p name =>
      rcases effect_ok h with ⟨rule, -, rfl⟩ | ⟨hasks, -⟩
      · simp [PlannedMapping.withRule]
      · cases hasks
  | readPathBy p path custom =>
      simp only [effect, asksFor, Checked.bind_eq_ok, Checked.pure_eq_ok] at h
      obtain ⟨_, -, custom, -, rfl⟩ := h
      simp [PlannedMapping.withPathRule]

/-! ## §4  What a plan records -/

/-- One mapping for every pair of a call, with the rules that the calls on it came to. -/
structure Records (r : Registry) (calls : List Call) (d : Plan) : Prop where
  types : d.types = r
  pairs : (d.planned.map (·.pair)).Nodup
  mem_pairs : ∀ p, p ∈ d.planned.map (·.pair) ↔ ∃ call ∈ calls, call.pair = p
  rule : ∀ x ∈ d.planned, ∀ name, x.map.ownRule? name = lastRule? r calls x.pair name
  distinct : ∀ x ∈ d.planned, x.Distinct
  reverse : ∀ x ∈ d.planned, x.reverse = true ↔ .alsoReverse x.pair ∈ calls

theorem planned_start : (d.start p).planned =
    if p ∈ d.planned.map (·.pair) then d.planned else d.planned ++ [.fresh p] := by
  unfold start
  have htaken : (d.planned.any (·.map.pair == p) = true) ↔ p ∈ d.planned.map (·.pair) := by
    simp only [List.any_eq_true, beq_iff_eq, List.mem_map]
    rfl
  by_cases hp : p ∈ d.planned.map (·.pair)
  · rw [if_pos (htaken.mpr hp), if_pos hp]
  · rw [if_neg (mt htaken.mp hp), if_neg hp]
    rfl

theorem mem_pairs_start {q : TyPair} :
    q ∈ (d.start p).planned.map (·.pair) ↔ q ∈ d.planned.map (·.pair) ∨ q = p := by
  rw [planned_start]
  split
  · rename_i hold
    exact ⟨.inl, fun hq => hq.elim id fun heq => heq ▸ hold⟩
  · rw [List.map_append, List.mem_append, List.map_singleton, List.mem_singleton,
      PlannedMapping.pair_fresh]

theorem nodup_pairs_start (h : (d.planned.map (·.pair)).Nodup) :
    ((d.start p).planned.map (·.pair)).Nodup := by
  rw [planned_start]
  split
  · exact h
  · rename_i hnew
    rw [List.map_append, List.map_singleton, ← List.concat_eq_append, List.nodup_concat,
      PlannedMapping.pair_fresh]
    exact ⟨hnew, h⟩

theorem pairs_update (hf : ∀ x, (f x).pair = x.pair) :
    (d.update p f).planned.map (·.pair) = (d.start p).planned.map (·.pair) := by
  rw [update, List.map_map]
  refine List.map_congr_left fun x _ => ?_
  dsimp only [Function.comp_apply]
  split
  · exact hf x
  · rfl

theorem records_nil : Records r [] { types := r } where
  types := rfl
  pairs := List.nodup_nil
  mem_pairs := by simp
  rule := nofun
  distinct := nofun
  reverse := nofun

theorem lastRule?_of_new (h : ¬ ∃ call ∈ calls, call.pair = p) : lastRule? r calls p name = none :=
  List.findSome?_eq_none_iff.mpr fun call hcall =>
    Call.rule?_of_pair_ne fun hpair => h ⟨call, List.mem_reverse.mp hcall, hpair⟩

/-- What a plan records about the pairs that have been called on, it records about the one that is
started now. -/
theorem Records.start (h : Records r calls d) (p : TyPair) :
    ∀ x ∈ (d.start p).planned, x.Distinct ∧
      (∀ name, x.map.ownRule? name = lastRule? r calls x.pair name) ∧
      (x.reverse = true ↔ .alsoReverse x.pair ∈ calls) := by
  intro x hx
  rw [planned_start] at hx
  split at hx
  · exact ⟨h.distinct x hx, h.rule x hx, h.reverse x hx⟩
  · rename_i hnew
    rcases List.mem_append.mp hx with hx | hx
    · exact ⟨h.distinct x hx, h.rule x hx, h.reverse x hx⟩
    · obtain rfl := List.mem_singleton.mp hx
      rw [h.mem_pairs] at hnew
      refine ⟨⟨List.nodup_nil, List.nodup_nil⟩, fun name => (lastRule?_of_new hnew).symm, ?_⟩
      exact ⟨nofun, fun hcall => absurd ⟨_, hcall, rfl⟩ hnew⟩

theorem Records.apply (h : Records r calls d) (hcall : call.effect r = .ok f) :
    Records r (calls ++ [call]) (d.apply call) := by
  have happly : d.apply call = d.update call.pair f := by rw [apply_eq, h.types, hcall]
  have hpairs : (d.apply call).planned.map (·.pair) = (d.start call.pair).planned.map (·.pair) := by
    rw [happly]
    exact pairs_update fun x => Call.effect_pair hcall
  -- A mapping of the new plan is one of the started plan, changed if it is the called one.
  have hplanned : ∀ x ∈ (d.apply call).planned, ∃ y ∈ (d.start call.pair).planned,
      x = if y.pair = call.pair then f y else y := by
    intro x hx
    rw [happly] at hx
    obtain ⟨y, hy, rfl⟩ := List.mem_map.mp hx
    refine ⟨y, hy, ?_⟩
    simp only [beq_iff_eq]
    rfl
  refine ⟨?_, ?_, ?_, ?_, ?_, ?_⟩
  · rw [happly]
    exact (types_update _ _).trans h.types
  · rw [hpairs]
    exact nodup_pairs_start h.pairs
  · intro p
    rw [hpairs, mem_pairs_start, h.mem_pairs]
    simp only [List.mem_append, List.mem_singleton, or_and_right, exists_or, exists_eq_left,
      @eq_comm _ p]
  · intro x hx name
    obtain ⟨y, hy, rfl⟩ := hplanned x hx
    rw [lastRule?_snoc]
    split
    · rename_i hpair
      rw [Call.effect_rule hcall, Call.effect_pair hcall, hpair, (h.start _ y hy).2.1, hpair]
    · rename_i hpair
      rw [Call.rule?_of_pair_ne (Ne.symm hpair), Option.none_or]
      exact (h.start _ y hy).2.1 name
  · intro x hx
    obtain ⟨y, hy, rfl⟩ := hplanned x hx
    split
    · exact Call.effect_distinct hcall (h.start _ y hy).1
    · exact (h.start _ y hy).1
  · intro x hx
    obtain ⟨y, hy, rfl⟩ := hplanned x hx
    rw [List.mem_append, List.mem_singleton]
    split
    · rename_i hpair
      rw [Call.effect_reverse hcall, Call.effect_pair hcall, (h.start _ y hy).2.2, hpair, eq_comm]
    · rename_i hpair
      rw [(h.start _ y hy).2.2]
      refine ⟨.inl, fun hor => hor.resolve_right ?_⟩
      rintro rfl
      exact hpair rfl

theorem records_run (h : ∀ call ∈ calls, ∃ f, call.effect r = .ok f) :
    Records r calls (run r calls) := by
  induction calls using List.reverseRecOn with
  | nil => exact records_nil
  | append_singleton calls call ih =>
      rw [run_snoc]
      rw [List.forall_mem_append, List.forall_mem_singleton] at h
      obtain ⟨f, hf⟩ := h.2
      exact (ih h.1).apply hf

/-! ## §5  What the plan ends with -/

/-- Linking changes nothing but what the mappings inherit from. -/
theorem link_bases : ∀ (links : List (TyPair × TyPair)) (maps : List Mapping),
    ∃ bases : Mapping → List TyPair,
      links.foldl link maps = maps.map fun m => { m with bases := bases m }
  | [], maps => ⟨Mapping.bases, (List.map_id maps).symm⟩
  | l :: links, maps => by
      obtain ⟨bases, hbases⟩ := link_bases links (link maps l)
      refine ⟨fun m => bases (if m.pair == l.1 then { m with bases := addOnce m.bases l.2 } else m),
        hbases.trans ?_⟩
      rw [link, List.map_map]
      refine List.map_congr_left fun m _ => ?_
      dsimp only [Function.comp_apply]
      split <;> rfl

/-- The reverse of the mapping of a pair, filled in. -/
def IsReversal (r : Registry) (maps : List Mapping) (p : TyPair) (m : Mapping) : Prop :=
  ∃ m' id, maps.find? (·.pair == p) = some m' ∧ m = r.fill (m'.reversed id)

theorem IsReversal.pair {maps : List Mapping} {m : Mapping} (h : IsReversal r maps p m) :
    m.pair = p.reversed := by
  obtain ⟨m', id, hfind, rfl⟩ := h
  have hpair : m'.pair = p := by simpa using List.find?_some hfind
  exact congrArg TyPair.reversed hpair

theorem find?_pair_append {maps added : List Mapping} (h : p ∈ maps.map (·.pair)) :
    (maps ++ added).find? (·.pair == p) = maps.find? (·.pair == p) := by
  obtain ⟨m, hm, hpair⟩ := List.mem_map.mp h
  have hfound : (maps.find? (·.pair == p)).isSome = true :=
    List.find?_isSome.mpr ⟨m, hm, by simpa using hpair⟩
  obtain ⟨m', hm'⟩ := Option.isSome_iff_exists.mp hfound
  rw [List.find?_append, hm', Option.some_or]

theorem addReversed_congr {d' : Plan} (h : d.types = d'.types) :
    ∀ (pairs : List TyPair) (maps : List Mapping) (id : Nat),
      d.addReversed maps id pairs = d'.addReversed maps id pairs
  | [], _, _ => rfl
  | p :: pairs, maps, id => by
      simp only [addReversed, addReversed_congr h, h]

/-- What is added are reverses of free pairs, one for each pair that lacks its reverse. -/
theorem addReversed_added : ∀ {pairs : List TyPair} {maps : List Mapping} {id : Nat},
    (∀ p ∈ pairs, p ∈ maps.map (·.pair)) → (maps.map (·.pair)).Nodup →
      ∃ added, (d.addReversed maps id pairs).1 = maps ++ added ∧
        ((maps ++ added).map (·.pair)).Nodup ∧
        (∀ m ∈ added, ∃ p ∈ pairs, IsReversal d.types maps p m) ∧
        ∀ p ∈ pairs, p.reversed ∈ (maps ++ added).map (·.pair)
  | [], maps, id, _, hnodup => ⟨[], by simp [addReversed], by simpa using hnodup, nofun, nofun⟩
  | p :: pairs, maps, id, hpairs, hnodup => by
      have hp : p ∈ maps.map (·.pair) := hpairs p List.mem_cons_self
      have htail : ∀ q ∈ pairs, q ∈ maps.map (·.pair) :=
        fun q hq => hpairs q (List.mem_cons_of_mem _ hq)
      have htaken : (maps.any (·.pair == p.reversed) = true) ↔ p.reversed ∈ maps.map (·.pair) := by
        simp only [List.any_eq_true, beq_iff_eq, List.mem_map]
      rw [addReversed]
      -- The later pairs meet what is added here, but are looked up in what was there before.
      split
      · rename_i hreversed
        obtain ⟨added, heq, hadded, hrev, hall⟩ := addReversed_added htail hnodup
        refine ⟨added, heq, hadded, fun m hm => ?_, List.forall_mem_cons.mpr ⟨?_, hall⟩⟩
        · obtain ⟨q, hq, hm⟩ := hrev m hm
          exact ⟨q, List.mem_cons_of_mem _ hq, hm⟩
        · rw [List.map_append]
          exact List.mem_append_left _ (htaken.mp hreversed)
      · rename_i hfree
        obtain ⟨m, hfind⟩ : ∃ m, maps.find? (·.pair == p) = some m := by
          obtain ⟨m, hm, hpair⟩ := List.mem_map.mp hp
          exact Option.isSome_iff_exists.mp
            (List.find?_isSome.mpr ⟨m, hm, by simpa using hpair⟩)
        rw [hfind]
        dsimp only
        have hnew : IsReversal d.types maps p (d.types.fill (m.reversed id)) := ⟨m, id, hfind, rfl⟩
        have hnodup' : ((maps ++ [d.types.fill (m.reversed id)]).map (·.pair)).Nodup := by
          rw [List.map_append, List.map_singleton, ← List.concat_eq_append, List.nodup_concat,
            hnew.pair]
          exact ⟨mt htaken.mpr hfree, hnodup⟩
        have htail' : ∀ q ∈ pairs, q ∈ (maps ++ [d.types.fill (m.reversed id)]).map (·.pair) := by
          intro q hq
          rw [List.map_append]
          exact List.mem_append_left _ (htail q hq)
        obtain ⟨added, heq, hadded, hrev, hall⟩ := addReversed_added htail' hnodup'
        rw [List.append_assoc, List.singleton_append] at heq hadded hall
        refine ⟨_, heq, hadded, List.forall_mem_cons.mpr ⟨?_, fun m hm => ?_⟩,
          List.forall_mem_cons.mpr ⟨?_, hall⟩⟩
        · exact ⟨p, List.mem_cons_self, hnew⟩
        · obtain ⟨q, hq, m', id', hfind', hm⟩ := hrev m hm
          exact ⟨q, List.mem_cons_of_mem _ hq, m', id',
            (find?_pair_append (htail q hq)).symm.trans hfind', hm⟩
        · rw [← hnew.pair]
          exact List.mem_map_of_mem (List.mem_append_right _ List.mem_cons_self)

/-- The mapping is the planned one with a rule for every member, linked to its bases. -/
def Completes (r : Registry) (x : PlannedMapping) (m : Mapping) : Prop :=
  m = { r.fill x.map with bases := m.bases }

/-- The mapping is the reverse of the planned one, in the same way. -/
def Reverses (r : Registry) (x : PlannedMapping) (m : Mapping) : Prop :=
  ∃ id, m = { r.fill ((r.fill x.map).reversed id) with bases := m.bases }

theorem Completes.pair {m : Mapping} (h : Completes r x m) : m.pair = x.pair := by
  rw [h]
  rfl

theorem Reverses.pair {m : Mapping} (h : Reverses r x m) : m.pair = x.pair.reversed := by
  obtain ⟨id, h⟩ := h
  rw [h]
  rfl

/-- The planned mappings with a rule for every member. -/
def drafted (d : Plan) : List Mapping := d.planned.map fun x => d.types.fill x.map

/-- The pairs whose reverses are asked for. -/
def reversible (d : Plan) : List TyPair := (d.planned.filter (·.reverse)).map (·.map.pair)

theorem finish_eq (d : Plan) (id : Nat) : d.finish id =
    match d.errors with
    | e :: _ => .error e
    | [] =>
      let added := d.addReversed d.drafted id d.reversible
      .ok (⟨d.types, (derivedLinks added.1).foldl link added.1⟩, added.2) := rfl

theorem finish_ok {id id' : Nat} {c : Configuration} (h : d.finish id = .ok (c, id')) :
    d.errors = [] ∧ c.types = d.types ∧ ∃ bases : Mapping → List TyPair, c.maps =
      (d.addReversed d.drafted id d.reversible).1.map fun m => { m with bases := bases m } := by
  rw [finish_eq] at h
  split at h
  · cases h
  · rename_i herrors
    simp only [Except.ok.injEq, Prod.mk.injEq] at h
    obtain ⟨rfl, -⟩ := h
    exact ⟨herrors, rfl, link_bases _ _⟩

theorem pairs_drafted (d : Plan) : d.drafted.map (·.pair) = d.planned.map (·.pair) := List.map_map

theorem find?_drafted (h : (d.planned.map (·.pair)).Nodup) (hx : x ∈ d.planned) :
    d.drafted.find? (·.pair == x.pair) = some (d.types.fill x.map) :=
  find?_of_nodup ((pairs_drafted d).symm ▸ h) (List.mem_map_of_mem hx)

theorem mem_reversible (hx : x ∈ d.planned) (hreverse : x.reverse = true) :
    x.pair ∈ d.reversible :=
  List.mem_map.mpr ⟨x, List.mem_filter.mpr ⟨hx, hreverse⟩, rfl⟩

theorem pair_eq_of_reversed {p q : TyPair} (h : p.reversed = q.reversed) : p = q := by
  cases p
  cases q
  simp only [TyPair.reversed, TyPair.mk.injEq] at h ⊢
  exact h.symm

/-- What a plan that nothing failed in ends with: every planned mapping completed, the reverses that
were asked for and whose pairs are free, and nothing else. -/
structure EndsIn (d : Plan) (c : Configuration) : Prop where
  types : c.types = d.types
  pairs : (c.maps.map (·.pair)).Nodup
  completed : ∀ x ∈ d.planned, ∃ m ∈ c.maps, Completes d.types x m
  reversed : ∀ x ∈ d.planned, x.reverse = true → x.pair.reversed ∉ d.planned.map (·.pair) →
    ∃ m ∈ c.maps, Reverses d.types x m
  origin : ∀ m ∈ c.maps, ∃ x ∈ d.planned, Completes d.types x m ∨
    x.reverse = true ∧ x.pair.reversed ∉ d.planned.map (·.pair) ∧ Reverses d.types x m

theorem EndsIn.mappingOf? {c : Configuration} {m : Mapping} (h : d.EndsIn c) (hm : m ∈ c.maps) :
    c.mappingOf? m.pair = some m :=
  find?_of_nodup h.pairs hm

theorem finish_endsIn {id id' : Nat} {c : Configuration} (hpairs : (d.planned.map (·.pair)).Nodup)
    (h : d.finish id = .ok (c, id')) : d.EndsIn c := by
  obtain ⟨-, htypes, bases, hmaps⟩ := finish_ok h
  have hreversible : ∀ p ∈ d.reversible, p ∈ d.drafted.map (·.pair) := by
    intro p hp
    obtain ⟨x, hx, rfl⟩ := List.mem_map.mp hp
    rw [pairs_drafted]
    exact List.mem_map_of_mem (List.mem_of_mem_filter hx)
  obtain ⟨added, heq, hnodup, hrev, hall⟩ :=
    @addReversed_added d _ _ id hreversible ((pairs_drafted d).symm ▸ hpairs)
  rw [heq] at hmaps
  rw [List.map_append, pairs_drafted] at hall
  have hadded : ∀ m ∈ added, ∃ x ∈ d.planned,
      x.reverse = true ∧ x.pair.reversed ∉ d.planned.map (·.pair) ∧
        Reverses d.types x { m with bases := bases m } := by
    intro m hm
    obtain ⟨p, hp, hreversal⟩ := hrev m hm
    obtain ⟨x, hx, rfl⟩ := List.mem_map.mp hp
    obtain ⟨hx, hreverse⟩ := List.mem_filter.mp hx
    refine ⟨x, hx, hreverse, fun hmem => ?_, ?_⟩
    · rw [← pairs_drafted] at hmem
      rw [List.map_append] at hnodup
      exact (List.nodup_append.mp hnodup).2.2 _ hmem _ (List.mem_map_of_mem hm) hreversal.pair.symm
    · obtain ⟨m', id', hm', rfl⟩ := hreversal
      obtain rfl := Option.some.inj ((find?_drafted hpairs hx).symm.trans hm')
      exact ⟨id', rfl⟩
  refine ⟨htypes, ?_, ?_, ?_, ?_⟩
  · rw [hmaps, List.map_map]
    exact hnodup
  · intro x hx
    rw [hmaps]
    exact ⟨_, List.mem_map_of_mem (List.mem_append_left _ (List.mem_map_of_mem hx)), rfl⟩
  · intro x hx hreverse hfree
    -- The reverse is not planned, so it was added; its pair says which mapping it reverses.
    have hpair := (List.mem_append.mp (hall x.pair (mem_reversible hx hreverse))).resolve_left hfree
    obtain ⟨m, hm, hmpair⟩ := List.mem_map.mp hpair
    obtain ⟨y, hy, -, -, hrevy⟩ := hadded m hm
    have hxy : y.pair = x.pair := pair_eq_of_reversed (hrevy.pair.symm.trans hmpair)
    have hfind := (find?_of_nodup hpairs hy).symm.trans (hxy ▸ find?_of_nodup hpairs hx)
    obtain rfl := Option.some.inj hfind
    rw [hmaps]
    exact ⟨_, List.mem_map_of_mem (List.mem_append_right _ hm), hrevy⟩
  · rw [hmaps]
    intro m hm
    obtain ⟨m', hm', rfl⟩ := List.mem_map.mp hm
    rcases List.mem_append.mp hm' with hdraft | hreversal
    · obtain ⟨x, hx, rfl⟩ := List.mem_map.mp hdraft
      exact ⟨x, hx, .inl rfl⟩
    · obtain ⟨x, hx, hrevx⟩ := hadded m' hreversal
      exact ⟨x, hx, .inr hrevx⟩

/-- A run that nothing fails in can be finished. -/
theorem run_finishes (h : (run r calls).errors = []) (id : Nat) :
    ∃ c id', (run r calls).finish id = .ok (c, id') := by
  unfold finish
  rw [h]
  exact ⟨_, _, rfl⟩

theorem records_of_errors_nil (h : (run r calls).errors = []) : Records r calls (run r calls) :=
  records_run (run_errors_nil.mp h)

theorem run_endsIn {id id' : Nat} {c : Configuration} (h : (run r calls).finish id = .ok (c, id')) :
    (run r calls).EndsIn c :=
  finish_endsIn (records_of_errors_nil (finish_ok h).1).pairs h

/-! ## §6  Members of the types -/

/-- Whatever is called, the rules of the configuration populate members that the types have. -/
theorem finish_populatesMembers {id id' : Nat} {c : Configuration}
    (h : (run r calls).finish id = .ok (c, id')) : c.PopulatesMembers := by
  have hends := run_endsIn h
  have htypes := hends.types.trans (types_run r calls)
  intro m hm
  rw [htypes]
  obtain ⟨x, hx, hcompletes | ⟨-, -, n, hreverses⟩⟩ := hends.origin m hm
  · rw [hcompletes, types_run]
    exact (rooted_run r calls x hx).coherent_fill.member
  · rw [hreverses, types_run]
    exact Mapping.populatesMembers_fill ((rooted_run r calls x hx).coherent_fill.member?_reversed n)

/-- They read members that the types have as well, if no two members of a destination have one
name.  The reverse of a mapping may read the second of them otherwise. -/
theorem finish_coherent {id id' : Nat} {c : Configuration}
    (h : (run r calls).finish id = .ok (c, id'))
    (hnodup : ∀ call ∈ calls, ((r.members call.pair.destination).map (·.name)).Nodup) :
    c.Coherent := by
  have hends := run_endsIn h
  have htypes := hends.types.trans (types_run r calls)
  intro m hm
  rw [htypes]
  obtain ⟨x, hx, hcompletes | ⟨-, -, n, hreverses⟩⟩ := hends.origin m hm
  · have hcoherent := (rooted_run r calls x hx).coherent_fill
    rw [hcompletes, types_run]
    exact ⟨hcoherent.member, hcoherent.source⟩
  · obtain ⟨call, hcall, hpair⟩ := ((records_of_errors_nil (finish_ok h).1).mem_pairs x.pair).mp
      (List.mem_map_of_mem hx)
    have hdistinct : ((r.members x.map.destination).map (·.name)).Nodup := by
      have hdestination : call.pair.destination = x.map.destination := by rw [hpair]; rfl
      exact hdestination ▸ hnodup call hcall
    have hcoherent := (((rooted_run r calls x hx).fill hdistinct).reversed n).coherent_fill
    rw [hreverses, types_run]
    exact ⟨hcoherent.member, hcoherent.source⟩

end Plan

end Recast
