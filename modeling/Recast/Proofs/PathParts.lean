import Recast.Proofs.PathSteps

/-! # Paths in two parts

Without path rules a segment is followed without a look at those behind it, so a path can
be cut anywhere: what it comes to is what its front comes to and then, from the types and
the table that the front leads to, what the rest comes to.

- `Configuration.Reaches` — a path with its steps, the types it leads to and the table
  behind it.
- `Configuration.returns_dataPath_iff` — that is what following a path computes, at every
  limit that leaves room for its segments.
- `Configuration.reaches_append` — a path in two parts.
-/

namespace Recast

open DataStep Registry

/-- The type that steps read in the end, if their custom steps are lambdas. -/
def DataStep.endType? : Ty → List DataStep → Option Ty
  | t, [] => some t
  | t, .members ms :: steps => endType? (chainEnd t ms) steps
  | _, .custom lambda :: steps =>
    lambda.lambdaParts?.bind fun (_, body, _) => endType? body.ty steps

namespace Configuration

variable (c : Configuration)

/-- No mapping has a rule for a whole path. -/
def NoPathRules : Prop := ∀ m ∈ c.maps, m.pathRules = []

/-- Following the path between two types gives the steps, leads to two types and leaves a table.
The types come after the path and the table that it starts with. -/
inductive Reaches : Ty → Ty → List String → TypeTable → List DataStep → Ty → Ty → TypeTable → Prop
  | here {model data t} : Reaches model data [] t [] model data t
  /-- One type is read as it is, to the end of the path. -/
  | same {ty name rest t ms} (members : c.types.requireMembers ty (name :: rest) = .ok ms) :
      Reaches ty ty (name :: rest) t (appendMembers [] ms) (chainEnd ty ms) (chainEnd ty ms) t
  | step {fullPath model data name rest t a t₁ more model' data' t'} (differ : model ≠ data)
      (first : Returns (c.advance fullPath model data name rest) t a t₁)
      (others : Reaches a.model a.data (rest.drop a.taken) t₁ more model' data' t') :
      Reaches model data (name :: rest) t (join (appendStep [] a.step) more) model' data' t'

variable {c} {fullPath : String} {limit budget : Nat} {model data model' data' : Ty}
  {name : String} {p q path rest : List String} {steps front back : List DataStep}
  {t t' t₁ : TypeTable} {a : Advance}

/-! ## §1  Following a path -/

theorem Reaches.returns (h : c.Reaches model data path t steps model' data' t') :
    ∀ {limit : Nat}, path.length ≤ limit → Returns (c.dataPath model data path limit) t steps t' := by
  induction h with
  | here => exact fun _ => returns_dataPath_nil.mpr ⟨rfl, rfl⟩
  | same members =>
      intro limit hlimit
      exact returns_dataPath_same.mpr ⟨.inr (Nat.lt_of_lt_of_le (Nat.succ_pos _) hlimit),
        _, members, rfl, rfl⟩
  | @step fullPath _ _ name rest _ a _ _ _ _ _ differ first _ ih =>
      intro limit hlimit
      obtain ⟨budget, rfl⟩ := Nat.exists_eq_add_of_lt (Nat.lt_of_lt_of_le (Nat.succ_pos _) hlimit)
      rw [Nat.zero_add] at hlimit ⊢
      have hroom : (rest.drop a.taken).length ≤ budget := by
        simp only [List.length_cons, List.length_drop] at hlimit ⊢
        omega
      exact (returns_dataPath_cons fullPath differ).mpr ⟨_, _, _, first, ih hroom, rfl⟩

theorem reaches_of_returns : ∀ {budget : Nat} {model data : Ty} {path : List String}
    {t t' : TypeTable} {steps : List DataStep},
    Returns (c.dataPath model data path budget) t steps t' →
      ∃ model' data', c.Reaches model data path t steps model' data' t'
  | _, model, data, [], _, _, _, h => by
      obtain ⟨rfl, rfl⟩ := returns_dataPath_nil.mp h
      exact ⟨model, data, .here⟩
  | 0, _, _, _ :: _, _, _, _, h => by
      simp [dataPath, followPath] at h
  | budget + 1, model, data, name :: rest, _, _, _, h => by
      by_cases hsame : model = data
      · subst hsame
        obtain ⟨-, ms, hms, rfl, rfl⟩ := returns_dataPath_same.mp h
        exact ⟨_, _, .same hms⟩
      · obtain ⟨a, t₁, more, hfirst, hmore, rfl⟩ := (returns_dataPath_cons "" hsame).mp h
        obtain ⟨model', data', hothers⟩ := reaches_of_returns hmore
        exact ⟨model', data', .step hsame hfirst hothers⟩

/-- Every limit that leaves room for the segments will do. -/
theorem returns_dataPath_iff (hlimit : path.length ≤ limit) :
    Returns (c.dataPath model data path limit) t steps t' ↔
      ∃ model' data', c.Reaches model data path t steps model' data' t' := by
  constructor
  · exact reaches_of_returns
  · rintro ⟨_, _, h⟩
    exact h.returns hlimit

/-! ## §2  Without path rules -/

theorem searchPending_eq_none {α : Type} {ask : Mapping → Option α}
    (hask : ∀ m ∈ c.maps, ask m = none) : ∀ {n : Nat} {pending : List Mapping} {seen : List TyPair},
      (∀ m ∈ pending, m ∈ c.maps) → c.searchPending ask n pending seen = none
  | 0, _, _, _ => rfl
  | _ + 1, [], _, _ => rfl
  | n + 1, m :: pending, seen, h => by
      have hpending : ∀ m ∈ pending, m ∈ c.maps := fun m' hm' => h m' (List.mem_cons_of_mem _ hm')
      rw [searchPending]
      split
      · exact searchPending_eq_none hask hpending
      · rw [hask m (h m List.mem_cons_self)]
        refine searchPending_eq_none hask fun m' hm' => ?_
        rcases List.mem_append.mp hm' with hbase | hlater
        · obtain ⟨pair, -, hfound⟩ := List.mem_filterMap.mp hbase
          exact List.mem_of_find?_eq_some hfound
        · exact hpending m' hlater

theorem NoPathRules.longestPathRule? (hpaths : c.NoPathRules) {map : Mapping} (hmap : map ∈ c.maps)
    (path : List String) : c.longestPathRule? map path = none := by
  refine List.findSome?_eq_none_iff.mpr fun i _ => ?_
  have hnone : c.pathRule? map (path.take (i + 1)) = none := by
    refine searchPending_eq_none (fun m hm => ?_) (by simpa using hmap)
    rw [Mapping.ownPathRule?, hpaths m hm]
    rfl
  rw [hnone]
  rfl

/-- A segment is followed whatever comes behind it. -/
theorem NoPathRules.advance_eq (hpaths : c.NoPathRules) (rest rest' : List String) :
    c.advance fullPath model data name rest = c.advance fullPath model data name rest' := by
  have hmapping : c.advanceByMapping fullPath model data name rest =
      c.advanceByMapping fullPath model data name rest' := by
    unfold advanceByMapping
    split
    · rfl
    · rename_i map hmap
      have hmem := (mapping?_mem hmap).1
      rw [hpaths.longestPathRule? hmem, hpaths.longestPathRule? hmem]
  unfold advance
  rw [hmapping]

/-- A segment leads to the type of the model member that it names, and to the type that its step
reads.  It takes no other segment with it. -/
theorem NoPathRules.advance_ends (hpaths : c.NoPathRules)
    (h : Returns (c.advance fullPath model data name rest) t a t') :
    a.taken = 0 ∧ (∃ m, c.types.member? model name = some m ∧ a.model = m.ty) ∧
      ∀ u, endType? data [a.step] = some u → a.data = u := by
  cases returns_advance.mp h with
  | alike _ hm => exact ⟨rfl, ⟨_, hm, rfl⟩, fun u hu => by simpa [endType?, chainEnd] using hu⟩
  | members _ _ _ hm => exact ⟨rfl, ⟨_, hm, rfl⟩, fun u hu => by simpa [endType?] using hu⟩
  | @custom _ _ _ lambda _ _ _ hm _ _ hcustom =>
      refine ⟨rfl, ⟨_, hm, rfl⟩, fun u hu => ?_⟩
      cases hparts : lambda.lambdaParts? with
      | none => simp [endType?, hparts] at hu
      | some parts =>
          obtain ⟨ps, body, ty⟩ := parts
          simpa [endType?, hparts, MemberRule.inputType?, hcustom] using hu
  | path _ hmap hlongest =>
      rw [hpaths.longestPathRule? (mapping?_mem hmap).1] at hlongest
      cases hlongest

/-! ## §3  Where a path leads -/

theorem endType?_append : ∀ (steps : List DataStep) {more : List DataStep} {ty : Ty},
    endType? ty (steps ++ more) = (endType? ty steps).bind (endType? · more)
  | [], _, _ => rfl
  | .members _ :: steps, _, _ => endType?_append steps
  | .custom lambda :: steps, more, ty => by
      cases hparts : lambda.lambdaParts? with
      | none => simp [endType?, hparts]
      | some parts => simp [endType?, hparts, endType?_append steps]

theorem endType?_appendStep {step : DataStep} {ty : Ty} :
    endType? ty (appendStep steps step) = (endType? ty steps).bind (endType? · [step]) := by
  cases step with
  | custom lambda => exact endType?_append steps
  | members ms =>
      show endType? ty (appendMembers steps ms) = _
      obtain ⟨before, last, rfl⟩ | halone := ends_in_members_or steps
      · rw [appendMembers_concat, endType?_append, endType?_append, Option.bind_assoc]
        simp [endType?, chainEnd_append]
      · by_cases hms : ms = []
        · simp [hms, endType?, chainEnd]
        · rw [halone ms hms, endType?_append]

theorem endType?_join : ∀ {more steps : List DataStep} {ty : Ty},
    endType? ty (join steps more) = (endType? ty steps).bind (endType? · more)
  | [], _, _ => by simp [endType?]
  | step :: more, steps, ty => by
      have hfirst : ∀ u, endType? u (step :: more) =
          (endType? u [step]).bind (endType? · more) := fun u => endType?_append [step]
      show endType? ty (join (appendStep steps step) more) = _
      rw [endType?_join, endType?_appendStep, Option.bind_assoc]
      simp only [hfirst]

/-- The path leads to the type of the members that it names, and to the type that its steps read. -/
theorem NoPathRules.reaches_ends (hpaths : c.NoPathRules)
    (h : c.Reaches model data path t steps model' data' t') :
    (∃ ms, c.types.requireMembers model path = .ok ms ∧ model' = chainEnd model ms) ∧
      ∀ u, endType? data steps = some u → data' = u := by
  induction h with
  | here => exact ⟨⟨[], rfl, rfl⟩, fun u hu => Option.some.inj hu⟩
  | @same ty _ _ _ ms members =>
      refine ⟨⟨ms, members, rfl⟩, fun u hu => ?_⟩
      have hstep : endType? ty (appendStep [] (.members ms)) = some (chainEnd ty ms) :=
        endType?_appendStep
      exact Option.some.inj (hstep.symm.trans hu)
  | step _ first _ ih =>
      obtain ⟨htaken, ⟨m, hm, hmodel⟩, hdata⟩ := hpaths.advance_ends first
      obtain ⟨⟨ms, hms, rfl⟩, hend⟩ := ih
      rw [htaken, hmodel] at hms
      refine ⟨⟨m :: ms, ?_, by rw [hmodel]; rfl⟩, fun u hu => ?_⟩
      · simp only [requireMembers, Checked.bind_eq_ok, requireMember_eq_ok]
        exact ⟨m, hm, ms, hms, rfl⟩
      · rw [endType?_join, endType?_appendStep] at hu
        obtain ⟨v, hv, hu⟩ := Option.bind_eq_some_iff.mp hu
        exact hend u (hdata v hv ▸ hu)

/-! ## §4  Two parts -/

theorem reaches_same {ty : Ty} : c.Reaches ty ty path t steps model' data' t' ↔
    ∃ ms, c.types.requireMembers ty path = .ok ms ∧ appendMembers [] ms = steps ∧
      chainEnd ty ms = model' ∧ chainEnd ty ms = data' ∧ t = t' := by
  constructor
  · rintro (_ | @⟨_, _, _, _, ms, hms⟩ | differ)
    · exact ⟨[], rfl, rfl, rfl, rfl, rfl⟩
    · exact ⟨ms, hms, rfl, rfl, rfl, rfl⟩
    · exact absurd rfl differ
  · rintro ⟨ms, hms, rfl, rfl, rfl, rfl⟩
    cases path with
    | nil =>
        cases hms
        exact .here
    | cons name rest => exact .same hms

theorem NoPathRules.reaches_cons (hpaths : c.NoPathRules) (fullPath : String) (hne : model ≠ data) :
    c.Reaches model data (name :: rest) t steps model' data' t' ↔
      ∃ a t₁ more, Returns (c.advance fullPath model data name []) t a t₁ ∧
        c.Reaches a.model a.data rest t₁ more model' data' t' ∧
        join (appendStep [] a.step) more = steps := by
  constructor
  · rintro (_ | _ | ⟨_, first, others⟩)
    · exact absurd rfl hne
    · rw [(hpaths.advance_ends first).1] at others
      rw [hpaths.advance_eq _ []] at first
      exact ⟨_, _, _, returns_advance_relabel first, others, rfl⟩
  · rintro ⟨a, t₁, more, first, others, rfl⟩
    have htaken := (hpaths.advance_ends first).1
    rw [hpaths.advance_eq [] rest] at first
    refine .step hne first ?_
    rw [htaken]
    exact others

/-- Plain members next to each other are one step already. -/
theorem Reaches.join_nil (h : c.Reaches model data path t steps model' data' t') :
    join [] steps = steps := by
  cases h with
  | here => rfl
  | same => exact join_appendMembers
  | step => rw [← join_join, join_one]

/-- A path is followed as its front, and then the rest from where the front leads. -/
theorem NoPathRules.reaches_append (hpaths : c.NoPathRules) : ∀ {p : List String} {model data : Ty}
    {steps : List DataStep} {t : TypeTable},
    c.Reaches model data (p ++ q) t steps model' data' t' ↔
      ∃ front model₁ data₁ t₁ back, c.Reaches model data p t front model₁ data₁ t₁ ∧
        c.Reaches model₁ data₁ q t₁ back model' data' t' ∧ join front back = steps
  | [], model, data, steps, t => by
      constructor
      · exact fun h => ⟨[], model, data, t, steps, .here, h, h.join_nil⟩
      · rintro ⟨_, _, _, _, back, hfront, hback, rfl⟩
        cases hfront
        rw [hback.join_nil]
        exact hback
  | name :: p, model, data, steps, t => by
      by_cases hsame : model = data
      · subst hsame
        simp only [reaches_same, requireMembers_append]
        constructor
        · rintro ⟨_, ⟨ps, qs, hps, hqs, rfl⟩, rfl, rfl, rfl, rfl⟩
          refine ⟨_, _, _, _, appendMembers [] qs, ⟨ps, hps, rfl, rfl, rfl, rfl⟩, ?_, join_members⟩
          exact reaches_same.mpr ⟨qs, hqs, rfl, chainEnd_append.symm, chainEnd_append.symm, rfl⟩
        · rintro ⟨_, _, _, _, back, ⟨ps, hps, rfl, rfl, rfl, rfl⟩, hback, rfl⟩
          obtain ⟨qs, hqs, rfl, rfl, rfl, rfl⟩ := reaches_same.mp hback
          exact ⟨_, ⟨ps, qs, hps, hqs, rfl⟩, join_members.symm, chainEnd_append, chainEnd_append,
            rfl⟩
      · rw [List.cons_append]
        simp only [hpaths.reaches_cons "" hsame, hpaths.reaches_append (p := p)]
        constructor
        · rintro ⟨a, t₁, _, hfirst, ⟨front, model₁, data₁, t₂, back, hfront, hback, rfl⟩, rfl⟩
          exact ⟨_, _, _, _, back, ⟨a, t₁, front, hfirst, hfront, rfl⟩, hback, join_join⟩
        · rintro ⟨_, _, _, _, back, ⟨a, t₁, front, hfirst, hfront, rfl⟩, hback, rfl⟩
          exact ⟨a, t₁, _, hfirst, ⟨front, _, _, _, back, hfront, hback, rfl⟩, join_join.symm⟩

/-- A path resolves exactly if its front does, and then the rest of it from the types and the table
that the front leads to: the type of the model members that are named, and the type that the steps
read.  The steps are those of the front with those of the rest behind them. -/
theorem dataPath_append (hpaths : c.NoPathRules) (hlimit : (p ++ q).length ≤ limit) :
    (Returns (c.dataPath model data (p ++ q) limit) t steps t' ↔
      ∃ front model₁ data₁ t₁ back, Returns (c.dataPath model data p limit) t front t₁ ∧
        c.Reaches model data p t front model₁ data₁ t₁ ∧
        Returns (c.dataPath model₁ data₁ q limit) t₁ back t' ∧ join front back = steps) ∧
    ∀ front model₁ data₁ t₁, c.Reaches model data p t front model₁ data₁ t₁ →
      (∃ ms, c.types.requireMembers model p = .ok ms ∧ model₁ = chainEnd model ms) ∧
        ∀ u, endType? data front = some u → data₁ = u := by
  refine ⟨?_, fun _ _ _ _ h => hpaths.reaches_ends h⟩
  have hp : p.length ≤ limit := by
    rw [List.length_append] at hlimit
    omega
  have hq : q.length ≤ limit := by
    rw [List.length_append] at hlimit
    omega
  rw [returns_dataPath_iff hlimit]
  simp only [hpaths.reaches_append]
  constructor
  · rintro ⟨_, _, front, model₁, data₁, t₁, back, hfront, hback, rfl⟩
    exact ⟨front, model₁, data₁, t₁, back, hfront.returns hp, hfront, hback.returns hq, rfl⟩
  · rintro ⟨front, model₁, data₁, t₁, back, -, hfront, hback, rfl⟩
    obtain ⟨model', data', hback⟩ := (returns_dataPath_iff hq).mp hback
    exact ⟨model', data', front, model₁, data₁, t₁, back, hfront, hback, rfl⟩

/-! ### Lines of an order in a wrapper -/

namespace Lines

def person : Ty := .declared 1

def buyerModel : Ty := .declared 2

def line : Ty := .declared 3

def lineModel : Ty := .declared 4

def order : Ty := .declared 5

def orderModel : Ty := .declared 6

def wrap (t : Ty) : Ty := .inst 0 [t]

def registry : Registry :=
  { declarations := [.generic "Wrap" 1 none [⟨"Item", .param 0⟩],
      .record "Person" none [⟨"FullName", .string⟩], .record "BuyerModel" none [⟨"Name", .string⟩],
      .record "Line" none [⟨"PlacedBy", wrap person⟩],
      .record "LineModel" none [⟨"Buyer", buyerModel⟩],
      .record "Order" none [⟨"First", wrap line⟩],
      .record "OrderModel" none [⟨"First", wrap lineModel⟩]] }

/-- `l => l.PlacedBy.Item` -/
def readBuyer : Expr :=
  mkLambda [⟨0, "l", line⟩]
    (.member (.member (.param ⟨0, "l", line⟩) ⟨"PlacedBy", wrap person⟩) ⟨"Item", person⟩)

def config : Configuration :=
  { types := registry,
    maps := [
      { source := order
        destination := orderModel
        rules := [{ member := ⟨"First", wrap lineModel⟩, source := [⟨"First", wrap line⟩] }] },
      { source := line
        destination := lineModel
        rules := [{ member := ⟨"Buyer", buyerModel⟩, custom := some readBuyer }] },
      { source := person
        destination := buyerModel
        rules := [{ member := ⟨"Name", .string⟩, source := [⟨"FullName", .string⟩] }] }] }

end Lines

open Lines in
/-- A path cut between two plain members, which are one step of the whole. -/
theorem dataPath_append_lines :
    config.NoPathRules ∧ ∃ front model₁ data₁ t₁ back,
      Returns (config.dataPath orderModel order ["First"] 4) {} front t₁ ∧
      config.Reaches orderModel order ["First"] {} front model₁ data₁ t₁ ∧
      Returns (config.dataPath model₁ data₁ ["Item", "Buyer", "Name"] 4) t₁ back
        ⟨[(lineModel, line), (buyerModel, person)]⟩ ∧
      join front back = [.members [⟨"First", wrap line⟩, ⟨"Item", line⟩], .custom readBuyer,
        .members [⟨"FullName", .string⟩]] := by
  have hpaths : config.NoPathRules := by simp [NoPathRules, config]
  have hrun : Returns (config.dataPath orderModel order ["First", "Item", "Buyer", "Name"] 4) {}
      [.members [⟨"First", wrap line⟩, ⟨"Item", line⟩], .custom readBuyer,
        .members [⟨"FullName", .string⟩]] ⟨[(lineModel, line), (buyerModel, person)]⟩ := rfl
  exact ⟨hpaths, (dataPath_append (p := ["First"]) hpaths (by decide)).1.mp hrun⟩

end Configuration

end Recast
