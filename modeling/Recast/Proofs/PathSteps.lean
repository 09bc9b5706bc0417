import Recast.Proofs.PathTyping

/-! # Paths in stretches

Following a path only ever adds steps behind those that are there, so the steps of a path
are those of its first segment with those of the rest behind them.

- `DataStep.join` — steps with others behind them, plain members merged.
- `Configuration.returns_dataPath_cons` — a path one segment at a time.
- `Configuration.returns_advance_plain` — everything that a step without a custom lambda can do.
- `Configuration.Reads` — a path that is read plainly, with its members on either side.
-/

namespace Recast

open Recast.Configuration (appendStep)

/-! ## §1  Joining steps -/

namespace DataStep

/-- Steps with others behind them; plain members next to each other are one step. -/
def join (steps more : List DataStep) : List DataStep := more.foldl appendStep steps

variable {steps more rest : List DataStep} {before ms ms' : List Member}

@[simp] theorem appendMembers_nil : appendMembers steps [] = steps := rfl

@[simp] theorem appendMembers_concat :
    appendMembers (steps ++ [.members before]) ms = steps ++ [.members (before ++ ms)] := by
  cases ms <;> simp [appendMembers]

/-- Steps end in members, or members are added as a step of their own. -/
theorem ends_in_members_or (steps : List DataStep) :
    (∃ front before, steps = front ++ [.members before]) ∨
      ∀ ms, ms ≠ [] → appendMembers steps ms = steps ++ [.members ms] := by
  cases hlast : steps.getLast? with
  | none => exact .inr fun ms hms => by simp [appendMembers, hms, hlast]
  | some last =>
      cases last with
      | members before =>
          obtain ⟨front, rfl⟩ := List.getLast?_eq_some_iff.mp hlast
          exact .inl ⟨front, before, rfl⟩
      | custom lambda => exact .inr fun ms hms => by simp [appendMembers, hms, hlast]

theorem appendMembers_appendMembers :
    appendMembers (appendMembers steps ms) ms' = appendMembers steps (ms ++ ms') := by
  obtain ⟨front, before, rfl⟩ | halone := ends_in_members_or steps
  · simp
  · by_cases hms : ms = []
    · simp [hms]
    · rw [halone ms hms, appendMembers_concat, halone _ (by simp [hms])]

@[simp] theorem join_nil : join steps [] = steps := rfl

theorem join_appendMembers :
    join steps (appendMembers more ms) = appendMembers (join steps more) ms := by
  obtain ⟨front, before, rfl⟩ | halone := ends_in_members_or more
  · simp [join, appendStep, appendMembers_appendMembers]
  · by_cases hms : ms = []
    · simp [hms]
    · simp [halone ms hms, join, appendStep]

theorem join_members :
    join (appendStep [] (.members ms)) (appendMembers [] ms') = appendMembers [] (ms ++ ms') := by
  rw [join_appendMembers, join_nil]
  exact appendMembers_appendMembers

theorem join_appendStep {step : DataStep} :
    join steps (appendStep more step) = appendStep (join steps more) step := by
  cases step with
  | members ms => exact join_appendMembers
  | custom lambda => simp [appendStep, join]

theorem join_join : ∀ {rest more : List DataStep},
    join (join steps more) rest = join steps (join more rest)
  | [], _ => rfl
  | step :: rest, more => by
      have hstep : join (join steps more) (step :: rest) =
          join (join steps (appendStep more step)) rest := by
        rw [join_appendStep]
        rfl
      rw [hstep, join_join]
      rfl

/-- Steps without a custom lambda come to plain members. -/
theorem join_plain : ∀ {more steps : List DataStep}, more.any (·.isCustom) = false →
    ∃ ms, join steps more = appendMembers steps ms
  | [], _, _ => ⟨[], rfl⟩
  | .members ms :: more, steps, h => by
      obtain ⟨ms', hms'⟩ := @join_plain more (appendMembers steps ms) (by simpa [isCustom] using h)
      exact ⟨ms ++ ms', hms'.trans appendMembers_appendMembers⟩
  | .custom lambda :: more, _, h => by
      simp [isCustom] at h

theorem appendMembers_injective (h : appendMembers [] ms = appendMembers [] ms') : ms = ms' := by
  cases ms <;> cases ms' <;> simp_all [appendMembers]

theorem join_one (step : DataStep) : join steps (appendStep [] step) = appendStep steps step :=
  join_appendStep

/-- Behind plain members, steps are custom exactly where they were. -/
theorem appendMembers_any :
    (appendMembers steps ms).any (·.isCustom) = steps.any (·.isCustom) := by
  obtain ⟨front, before, rfl⟩ | halone := ends_in_members_or steps
  · simp [isCustom]
  · by_cases hms : ms = []
    · simp [hms]
    · simp [halone ms hms, isCustom]

theorem join_any : ∀ {more steps : List DataStep},
    (join steps more).any (·.isCustom) = (steps.any (·.isCustom) || more.any (·.isCustom))
  | [], _ => by simp
  | .members ms :: more, steps => by
      show (join (appendMembers steps ms) more).any _ = _
      rw [join_any, appendMembers_any]
      simp [isCustom]
  | .custom lambda :: more, steps => by
      show (join (steps ++ [.custom lambda]) more).any _ = _
      rw [join_any]
      simp [isCustom]

theorem appendStep_any {step : DataStep} :
    (appendStep steps step).any (·.isCustom) = (steps.any (·.isCustom) || step.isCustom) := by
  have h := @join_any [step] steps
  simpa [join] using h

end DataStep

/-! ## §2  One segment at a time -/

theorem Registry.requireMembers_append {r : Registry} : ∀ {path rest : List String} {ty : Ty}
    {ms : List Member}, r.requireMembers ty (path ++ rest) = .ok ms ↔
      ∃ front back, r.requireMembers ty path = .ok front ∧
        r.requireMembers (chainEnd ty front) rest = .ok back ∧ front ++ back = ms
  | [], _, _, _ => by simp [requireMembers, chainEnd]
  | name :: path, rest, ty, ms => by
      simp only [List.cons_append, requireMembers, Checked.bind_eq_ok, Checked.pure_eq_ok,
        @requireMembers_append r path]
      constructor
      · rintro ⟨m, hm, _, ⟨front, back, hfront, hback, rfl⟩, rfl⟩
        exact ⟨m :: front, back, ⟨m, hm, front, hfront, rfl⟩, hback, rfl⟩
      · rintro ⟨_, back, ⟨m, hm, front, hfront, rfl⟩, hback, rfl⟩
        exact ⟨m, hm, _, ⟨front, back, hfront, hback, rfl⟩, rfl⟩

namespace Configuration

open DataStep

variable {c : Configuration} {limit limit' : Nat} {fullPath fullPath' : String}

/-- What is there already is left alone. -/
theorem followPath_join : ∀ {budget : Nat} {model data : Ty} {path : List String}
    {steps : List DataStep}, c.followPath limit fullPath budget model data path steps =
      join steps <$> c.followPath limit fullPath budget model data path []
  | _, _, _, [], _ => by simp [followPath]
  | 0, _, _, _ :: _, _ => rfl
  | budget + 1, model, data, name :: rest, steps => by
      rw [followPath, followPath]
      split
      · simp [join_appendMembers]
      · rw [map_bind]
        refine bind_congr fun a => ?_
        rw [followPath_join, @followPath_join budget _ _ _ (appendStep [] a.step), Functor.map_map]
        congr
        funext more
        rw [← join_join, join_one]

variable {budget : Nat} {model data : Ty} {name : String} {path rest : List String}
  {steps : List DataStep} {a : Advance} {t t' : TypeTable}

/-- The whole path is only used to report an error. -/
theorem returns_advance_relabel (h : Returns (c.advance fullPath model data name rest) t a t') :
    Returns (c.advance fullPath' model data name rest) t a t' :=
  returns_advance.mpr (returns_advance.mp h)

theorem returns_followPath_relabel : ∀ {budget : Nat} {model data : Ty} {path : List String}
    {steps steps' : List DataStep} {t t' : TypeTable},
    Returns (c.followPath limit fullPath budget model data path steps) t steps' t' →
      Returns (c.followPath limit' fullPath' budget model data path steps) t steps' t'
  | _, _, _, [], _, _, _, _, h => by
      simpa [followPath] using h
  | 0, _, _, _ :: _, _, _, _, _, h => by
      simp [followPath] at h
  | budget + 1, model, data, name :: rest, steps, steps', t, t', h => by
      rw [followPath] at h ⊢
      by_cases hsame : model = data
      · rw [if_pos hsame] at h ⊢
        exact h
      · rw [if_neg hsame] at h ⊢
        obtain ⟨a, t₁, ha, hrest⟩ := returns_bind.mp h
        exact returns_bind.mpr
          ⟨a, t₁, returns_advance_relabel ha, returns_followPath_relabel hrest⟩

@[simp] theorem returns_dataPath_nil :
    Returns (c.dataPath model data [] budget) t steps t' ↔ [] = steps ∧ t = t' := by
  simp [dataPath, followPath]

/-- One type is read as it is, if a step may be taken at all. -/
theorem returns_dataPath_same {ty : Ty} : Returns (c.dataPath ty ty path budget) t steps t' ↔
    (path = [] ∨ 0 < budget) ∧
      ∃ ms, c.types.requireMembers ty path = .ok ms ∧ appendMembers [] ms = steps ∧ t = t' := by
  match path, budget with
  | [], _ => simp [Registry.requireMembers]
  | name :: rest, 0 => simp [dataPath, followPath]
  | name :: rest, budget + 1 =>
      simp only [dataPath, followPath, if_true, returns_bind, TableM.returns_ofChecked,
        returns_pure]
      constructor
      · rintro ⟨ms, _, ⟨hms, rfl⟩, rfl, rfl⟩
        exact ⟨.inr (Nat.succ_pos _), ms, hms, rfl, rfl⟩
      · rintro ⟨-, ms, hms, rfl, rfl⟩
        exact ⟨ms, t, ⟨hms, rfl⟩, rfl, rfl⟩

/-- The first segment, and then the rest from where it leads. -/
theorem returns_dataPath_cons (fullPath : String) (hne : model ≠ data) :
    Returns (c.dataPath model data (name :: rest) (budget + 1)) t steps t' ↔
      ∃ a t₁ more, Returns (c.advance fullPath model data name rest) t a t₁ ∧
        Returns (c.dataPath a.model a.data (rest.drop a.taken) budget) t₁ more t' ∧
        join (appendStep [] a.step) more = steps := by
  rw [dataPath, followPath, if_neg hne, returns_bind]
  constructor
  · rintro ⟨a, t₁, ha, hrest⟩
    rw [followPath_join, returns_map] at hrest
    obtain ⟨more, hmore, rfl⟩ := hrest
    exact ⟨a, t₁, more, returns_advance_relabel ha, returns_followPath_relabel hmore, rfl⟩
  · rintro ⟨a, t₁, more, ha, hmore, rfl⟩
    refine ⟨a, t₁, returns_advance_relabel ha, ?_⟩
    rw [followPath_join, returns_map]
    exact ⟨more, returns_followPath_relabel hmore, rfl⟩

/-! ## §3  Plain segments -/

variable (c) in
/-- What a segment for the model member `m` can come to between two types without a custom
lambda: the data members, and the table afterwards. -/
inductive PlainStep (model data : Ty) (name : String) (rest : List String) (m : Member)
    (t : TypeTable) : List Member → TypeTable → Prop where
  | alike {d : Member} {t' : TypeTable} (types : c.ReadAlike model data)
      (member : c.types.member? data name = some d)
      (related : Returns (c.relate m.ty d.ty) t () t') :
      PlainStep model data name rest m t [d] t'
  | rule {map : Mapping} {p : MemberRule} (types : ¬ c.ReadAlike model data)
      (mapped : c.mapping? data model = some map)
      (noPath : c.longestPathRule? map (name :: rest) = none)
      (own : c.memberRule? map name = some p) (used : (p.isFed && !p.ignored) = true)
      (plain : p.custom = none)
      (literals : c.LiteralsAgree m.ty (Registry.chainEnd data p.source)) :
      PlainStep model data name rest m t p.source t

/-- A step without a custom lambda, and what it can do. -/
theorem returns_advance_plain :
    (Returns (c.advance fullPath model data name rest) t a t' ∧ a.step.isCustom = false) ↔
      ∃ m ds, c.types.member? model name = some m ∧
        c.PlainStep model data name rest m t ds t' ∧
        a = ⟨.members ds, m.ty, Registry.chainEnd data ds, 0⟩ := by
  rw [returns_advance]
  constructor
  · rintro ⟨h, hplain⟩
    cases h with
    | alike htypes hm hd hrelate => exact ⟨_, _, hm, .alike htypes hd hrelate, rfl⟩
    | members htypes hmap hpath hm hown hused hcustom hliterals =>
        exact ⟨_, _, hm, .rule htypes hmap hpath hown hused hcustom hliterals, rfl⟩
    | custom => cases hplain
    | path => cases hplain
  · rintro ⟨m, ds, hm, hstep, rfl⟩
    cases hstep with
    | alike htypes hd hrelate => exact ⟨.alike htypes hm hd hrelate, rfl⟩
    | rule htypes hmap hpath hown hused hcustom hliterals =>
        exact ⟨.members htypes hmap hpath hm hown hused hcustom hliterals, rfl⟩

/-! ## §4  Paths read plainly -/

theorem longestPathRule?_eq_none_iff {map : Mapping} :
    c.longestPathRule? map path = none ↔
      ∀ i < path.length, c.pathRule? map (path.take (i + 1)) = none := by
  simp [longestPathRule?]

/-- A rule for a leading part of a shorter path is one for a leading part of the path. -/
theorem longestPathRule?_front {map : Mapping} {front : List String} (hfront : front <+: path)
    (h : c.longestPathRule? map path = none) : c.longestPathRule? map front = none := by
  rw [longestPathRule?_eq_none_iff] at h ⊢
  intro i hi
  obtain ⟨back, rfl⟩ := hfront
  rw [← h i (by simp; omega), List.take_append_of_le_length hi]

variable {m : Member} {ms ds ds' : List Member} {front : List String}

/-- What follows later does not matter for a segment. -/
theorem PlainStep.shortened (h : c.PlainStep model data name rest m t ds t')
    (hfront : front <+: rest) : c.PlainStep model data name front m t ds t' := by
  cases h with
  | alike htypes hd hrelate => exact .alike htypes hd hrelate
  | rule htypes hmap hpath hown hused hcustom hliterals =>
      have hpath := longestPathRule?_front (List.cons_prefix_cons.mpr ⟨rfl, hfront⟩) hpath
      exact .rule htypes hmap hpath hown hused hcustom hliterals

/-- A plain step, and then the rest from where it leads. -/
theorem PlainStep.returns_dataPath {t'' : TypeTable} (hne : model ≠ data)
    (hm : c.types.member? model name = some m) (hstep : c.PlainStep model data name path m t ds t')
    (hrest : Returns (c.dataPath m.ty (Registry.chainEnd data ds) path budget) t' steps t'') :
    Returns (c.dataPath model data (name :: path) (budget + 1)) t
      (join (appendStep [] (.members ds)) steps) t'' := by
  have hadvance : Returns (c.advance "" model data name path) t
      ⟨.members ds, m.ty, Registry.chainEnd data ds, 0⟩ t' :=
    (returns_advance_plain.mpr ⟨m, ds, hm, hstep, rfl⟩).1
  exact (returns_dataPath_cons "" hne).mpr ⟨_, t', steps, hadvance, hrest, rfl⟩

variable (c) in
/-- The path is read from both sides: `ms` are its members on the model side and `ds` the ones
that it comes to on the data side, without a custom lambda on the way. -/
structure Reads (budget : Nat) (t : TypeTable) (model data : Ty) (path : List String)
    (ms ds : List Member) : Prop where
  onModel : c.types.requireMembers model path = .ok ms
  onData : ∃ t', Returns (c.dataPath model data path budget) t (appendMembers [] ds) t'

theorem Reads.unique {ms' : List Member} (h : c.Reads budget t model data path ms ds)
    (h' : c.Reads budget t model data path ms' ds') : ms = ms' ∧ ds = ds' := by
  obtain ⟨t₁, hdata⟩ := h.onData
  obtain ⟨t₂, hdata'⟩ := h'.onData
  have hsteps := (Prod.ext_iff.mp (hdata.symm.trans hdata')).1
  exact ⟨Except.ok.inj (h.onModel.symm.trans h'.onModel),
    appendMembers_injective (Except.ok.inj hsteps)⟩

/-- Without a custom lambda the steps are plain members. -/
theorem dataPath_plain (h : Returns (c.dataPath model data path budget) t steps t')
    (hplain : steps.any (·.isCustom) = false) : ∃ ds, appendMembers [] ds = steps := by
  rw [dataPath, followPath_join, returns_map] at h
  obtain ⟨more, -, rfl⟩ := h
  obtain ⟨ds, hds⟩ := @join_plain more [] (by simpa [join_any] using hplain)
  exact ⟨ds, hds.symm⟩

theorem Reads.nil : c.Reads budget t model data [] [] [] where
  onModel := rfl
  onData := ⟨t, returns_dataPath_nil.mpr ⟨rfl, rfl⟩⟩

theorem Reads.same {ty : Ty} (hbudget : path = [] ∨ 0 < budget)
    (h : c.types.requireMembers ty path = .ok ms) : c.Reads budget t ty ty path ms ms where
  onModel := h
  onData := ⟨t, returns_dataPath_same.mpr ⟨hbudget, ms, h, rfl, rfl⟩⟩

theorem Reads.cons (hne : model ≠ data) (hm : c.types.member? model name = some m)
    (hstep : c.PlainStep model data name path m t ds t')
    (h : c.Reads budget t' m.ty (Registry.chainEnd data ds) path ms ds') :
    c.Reads (budget + 1) t model data (name :: path) (m :: ms) (ds ++ ds') where
  onModel := by
    simp only [Registry.requireMembers, Checked.bind_eq_ok, Registry.requireMember_eq_ok]
    exact ⟨m, hm, ms, h.onModel, rfl⟩
  onData := by
    obtain ⟨t'', hrest⟩ := h.onData
    exact ⟨t'', join_members ▸ hstep.returns_dataPath hne hm hrest⟩

end Configuration

end Recast
