import Recast.Proofs.PathMapping
import Recast.Proofs.PathSteps
import Recast.Proofs.Planning

/-! # Members of projections

The members of an anonymous record are found on the data side only through a mapping
between the two records, as if they were declared.

- `Configuration.Carries` — the mapping reads a member from a single data member.
  A mapping planned by convention does (`Configuration.carries_of_fill`).
- `Configuration.dataPath_projection` — the path of a member and what follows it, and
  recasting an access along it.
- `Configuration.run_dataPath_unmapped` — without a mapping no member is found.
-/

namespace Recast

open DataStep

/-! ## §1  Walking joined steps -/

theorem Recaster.walk_join {w : Recaster} : ∀ {more steps : List DataStep} {e : Expr},
    w.walk e (join steps more) = w.walk e steps >>= fun a => w.walk a more
  | [], steps, e => by
      rw [join_nil]
      cases w.walk e steps <;> rfl
  | step :: more, steps, e => by
      show w.walk e (join (Configuration.appendStep steps step) more) = _
      rw [walk_join, walk_appendStep]
      cases w.walk e steps with
      | error x => rfl
      | ok a => exact (@walk_append w [step] more a).symm

namespace Registry

variable {r : Registry}

theorem fillMembers_nil {source : Ty} : ∀ {ms : List Member},
    r.fillMembers source [] ms = ms.map (r.byConvention source)
  | [] => rfl
  | m :: ms => by
      rw [fillMembers, fillMembers_nil]
      rfl

end Registry

namespace Configuration

variable (c : Configuration)

/-! ## §2  Members that a mapping carries over -/

/-- The mapping between the two types reads the member from the data member `d`. -/
def Carries (model data : Ty) (name : String) (rest : List String) (d : Member) : Prop :=
  ∃ map p, c.mapping? data model = some map ∧ c.longestPathRule? map (name :: rest) = none ∧
    c.memberRule? map name = some p ∧ p.ignored = false ∧ p.custom = none ∧ p.source = [d]

variable {c} {ms ds : List Member} {name : String} {t d : Ty} {path : List String} {limit : Nat}
  {steps : List DataStep} {T T' : TypeTable}

theorem not_readAlike_anonymous {data : Ty} : ¬ c.ReadAlike (.anonymous ms) data := by
  simp [ReadAlike, sharesFormer, Registry.former?, Registry.isLiteral, Registry.literal?]

/-- The members of a projection are those that it lists. -/
theorem members_of_member? {m : Member} (h : c.types.member? (.anonymous ms) name = some m) :
    (c.types.members (.anonymous ms)).find? (·.name == name) = some m := by
  unfold Registry.member? at h
  split at h
  · exact h
  · simp [Registry.builtinMember?] at h

/-- Members of one name are carried over by convention. -/
theorem carries_of_fill {data : Ty} {m dm : Member}
    (hmodel : c.types.member? (.anonymous ms) name = some m)
    (hdata : c.types.member? data name = some dm)
    (hmap : c.mapping? data (.anonymous ms) =
      some (c.types.fill { source := data, destination := .anonymous ms })) :
    c.Carries (.anonymous ms) data name path dm := by
  have hrule : Mapping.ownRule? (c.types.fill { source := data, destination := .anonymous ms })
      name = some (c.types.byConvention data m) := by
    rw [Mapping.ownRule?, Registry.fill, Registry.fillMembers_nil, List.find?_map]
    exact congrArg (Option.map _) (members_of_member? hmodel)
  refine ⟨_, c.types.byConvention data m, hmap, longestPathRule?_of_no_paths rfl rfl _, ?_, rfl,
    rfl, ?_⟩
  · rw [memberRule?_of_no_bases rfl]
    exact hrule
  · rw [Registry.byConvention, Registry.name_of_member? hmodel, Registry.chainFor?_member hdata]
    rfl

/-! ## §3  Paths -/

/-- A member that is carried over is a step of its own. -/
theorem Carries.plainStep {data : Ty} {rest : List String} {m dm : Member}
    (h : c.Carries (.anonymous ms) data name rest dm) (hliterals : c.LiteralsAgree m.ty dm.ty) :
    c.PlainStep (.anonymous ms) data name rest m T [dm] T := by
  obtain ⟨map, p, hmap, hpath, hown, hignored, hcustom, hsource⟩ := h
  have hused : (p.isFed && !p.ignored) = true := by
    simp [MemberRule.isFed, hsource, hignored]
  rw [← hsource]
  refine .rule not_readAlike_anonymous hmap hpath hown hused hcustom ?_
  rw [hsource]
  exact hliterals

theorem returns_dataPath_cons_same {ty : Ty} {m : Member} (hm : c.types.member? ty name = some m)
    (hrest : Returns (c.dataPath m.ty m.ty path limit) T steps T') :
    Returns (c.dataPath ty ty (name :: path) (limit + 1)) T (join [.members [m]] steps) T' := by
  obtain ⟨-, ms, hms, rfl, rfl⟩ := returns_dataPath_same.mp hrest
  refine returns_dataPath_same.mpr ⟨.inr (Nat.succ_pos _), m :: ms, ?_, ?_, rfl⟩
  · simp only [Registry.requireMembers, Checked.bind_eq_ok, Registry.requireMember_eq_ok]
    exact ⟨m, hm, ms, hms, rfl⟩
  · exact (@join_members [m] ms).symm

theorem dataPath_of_carries
    (hmodel : c.types.member? (.anonymous ms) name = some ⟨name, t⟩)
    (hdata : c.types.member? (.anonymous ds) name = some ⟨name, d⟩)
    (hcarried : ms = ds ∨
      (c.Carries (.anonymous ms) (.anonymous ds) name path ⟨name, d⟩ ∧ c.LiteralsAgree t d))
    (hrest : Returns (c.dataPath t d path limit) T steps T') :
    Returns (c.dataPath (.anonymous ms) (.anonymous ds) (name :: path) (limit + 1)) T
      (join [.members [⟨name, d⟩]] steps) T' := by
  by_cases hsame : ms = ds
  · subst hsame
    obtain rfl : t = d := by simpa using hmodel.symm.trans hdata
    exact returns_dataPath_cons_same hmodel hrest
  · obtain ⟨hcarries, hliterals⟩ := hcarried.resolve_left hsame
    have hne : Ty.anonymous ms ≠ .anonymous ds := by simpa using hsame
    exact (hcarries.plainStep hliterals).returns_dataPath hne hmodel hrest

/-- An access is recast to what the rest of its path makes of the data member. -/
theorem returns_member_of_dataPath {w : Recaster} {self : Expr → RecastM Outcome} {e : Expr}
    {m : Member} {s s₁ s₂ : RecastState} {o : Outcome} {walked rebuilt : Expr}
    (hinclude : w.asInclude = false) (hbase : Returns (self e.chainBase) s o s₁)
    (hmade : o.isKept = false)
    (hpath : Returns (w.config.dataPath e.chainBase.ty (o.on e.chainBase).ty e.chainNames
      w.options.maxDepth) s₁.table (join [.members [m]] steps) T)
    (hwalk : w.walk (.member (o.on e.chainBase) m) steps = .ok walked)
    (hsettle : Returns (w.settle e.ty (steps.any (·.isCustom)) walked) { s₁ with table := T }
      rebuilt s₂) :
    Returns (w.member self e) s (.made rebuilt) s₂ := by
  have hcustom : (join [.members [m]] steps).any (·.isCustom) = steps.any (·.isCustom) := by
    rw [join_any]
    rfl
  have hjoined : w.walk (o.on e.chainBase) (join [.members [m]] steps) = .ok walked := by
    rw [Recaster.walk_join]
    exact hwalk
  simp only [Recaster.member, returns_bind, RecastM.returns_onTable]
  refine ⟨o, s₁, hbase, _, _, ⟨T, hpath, rfl⟩, ?_⟩
  rw [hcustom, hmade, hinclude, hjoined]
  simpa [RecastM.ofChecked] using hsettle

/-- A member that is carried over is read by what follows it behind the data member; and an
access along the path is recast whenever what it reads from and what follows the member are. -/
theorem dataPath_projection
    (hmodel : c.types.member? (.anonymous ms) name = some ⟨name, t⟩)
    (hdata : c.types.member? (.anonymous ds) name = some ⟨name, d⟩)
    (hcarried : ms = ds ∨
      (c.Carries (.anonymous ms) (.anonymous ds) name path ⟨name, d⟩ ∧ c.LiteralsAgree t d))
    (hrest : Returns (c.dataPath t d path limit) T steps T') :
    Returns (c.dataPath (.anonymous ms) (.anonymous ds) (name :: path) (limit + 1)) T
      (join [.members [⟨name, d⟩]] steps) T' ∧
    ∀ (w : Recaster) (self : Expr → RecastM Outcome) (e : Expr) (o : Outcome)
      (s s₁ s₂ : RecastState) (walked rebuilt : Expr),
      w.config = c → w.options.maxDepth = limit + 1 → w.asInclude = false → ms ≠ ds →
      e.chainBase.ty = .anonymous ms → e.chainNames = name :: path →
      Returns (self e.chainBase) s o s₁ → s₁.table = T →
      (o.on e.chainBase).ty = .anonymous ds →
      w.walk (.member (o.on e.chainBase) ⟨name, d⟩) steps = .ok walked →
      Returns (w.settle e.ty (steps.any (·.isCustom)) walked) { s₁ with table := T' } rebuilt s₂ →
        Returns (w.member self e) s (.made rebuilt) s₂ := by
  have hpath := dataPath_of_carries hmodel hdata hcarried hrest
  refine ⟨hpath, ?_⟩
  intro w self e o s s₁ s₂ walked rebuilt hconfig hdepth hinclude hne hty hnames hbase htable hmade
    hwalk hsettle
  -- What is kept is of the same type.
  have hkept : o.isKept = false := by
    cases o with
    | made e' => rfl
    | kept => exact absurd (Ty.anonymous.inj (hty.symm.trans hmade)) hne
  refine returns_member_of_dataPath hinclude hbase hkept ?_ hwalk hsettle
  rw [hconfig, hdepth, htable, hty, hmade, hnames]
  exact hpath

/-- Without a mapping between two projections no member of one is found in the other. -/
theorem run_dataPath_unmapped (hne : ms ≠ ds)
    (hunmapped : c.mapping? (.anonymous ds) (.anonymous ms) = none) :
    (c.dataPath (.anonymous ms) (.anonymous ds) (name :: path) (limit + 1)).run T =
      (.error (.missingTypeMap (c.types.tyText (.anonymous ds)) (c.types.tyText (.anonymous ms))),
        T) := by
  have hdiffer : Ty.anonymous ms ≠ .anonymous ds := fun heq => hne (Ty.anonymous.inj heq)
  rw [dataPath, followPath, if_neg hdiffer, run_bind, advance,
    if_neg (mt readAlike_iff.mpr not_readAlike_anonymous), advanceByMapping, hunmapped]
  rfl

/-! ### Customers in a projection -/

namespace Projected

def customer : Ty := .declared 0

def customerEntity : Ty := .declared 1

def row : Ty := .anonymous [⟨"Who", customer⟩]

def rowEntity : Ty := .anonymous [⟨"Who", customerEntity⟩]

def registry : Registry :=
  { declarations := [.record "Customer" none [⟨"Name", .string⟩],
      .record "CustomerEntity" none [⟨"FullName", .string⟩]] }

/-- Customers are mapped, projections of them are not. -/
def customers : Configuration :=
  { types := registry,
    maps := [{
      source := customerEntity
      destination := customer
      rules := [{ member := ⟨"Name", .string⟩, source := [⟨"FullName", .string⟩] }] }] }

/-- The projections are mapped by convention too. -/
def rows : Configuration :=
  { customers with
    maps := customers.maps ++ [registry.fill { source := rowEntity, destination := row }] }

/-- Customers correspond to their entities. -/
def table : TypeTable := ⟨[(customer, customerEntity)]⟩

end Projected

open Projected in
/-- The name of a projected customer, over a projection of entities. -/
theorem dataPath_projection_customer :
    let w : Recaster := { config := rows, mapper := rows.valueAs, options := { maxDepth := 2 } }
    let x : Parameter := ⟨0, "x", row⟩
    let x' : Parameter := ⟨1, "x", rowEntity⟩
    let access : Expr := .member (.member (.param x) ⟨"Who", customer⟩) ⟨"Name", .string⟩
    let dataAccess : Expr :=
      .member (.member (.param x') ⟨"Who", customerEntity⟩) ⟨"FullName", .string⟩
    Returns (rows.dataPath row rowEntity ["Who", "Name"] 2) table
        [.members [⟨"Who", customerEntity⟩, ⟨"FullName", .string⟩]] table ∧
      ∃ s', Returns (w.member (w.recastWithin 1) access) { table := table, fresh := 1 }
        (.made dataAccess) s' := by
  intro w x x' access dataAccess
  have hcarried : rows.Carries row rowEntity "Who" ["Name"] ⟨"Who", customerEntity⟩ :=
    carries_of_fill rfl rfl rfl
  have hrest : Returns (rows.dataPath customer customerEntity ["Name"] 1) table
      [.members [⟨"FullName", .string⟩]] table := rfl
  obtain ⟨hpath, haccess⟩ :=
    dataPath_projection rfl rfl (.inr ⟨hcarried, .inr (by decide)⟩) hrest
  refine ⟨hpath, _, haccess w _ access (.made (.param x')) _ _ _ dataAccess dataAccess rfl rfl rfl
    (by decide) rfl rfl rfl rfl rfl rfl rfl⟩

open Projected in
/-- Projections are rebuilt over data types without being mapped, and then their members are not
found any more, at any depth. -/
theorem dataPath_projection_fails :
    ¬ ∀ (c : Configuration) (ms ds : List Member) (name : String) (t d : Ty) (path : List String)
      (limit : Nat) (steps : List DataStep) (T T' : TypeTable),
      ms ≠ ds → ms.map (·.name) = ds.map (·.name) →
      T.dataType c.types (.anonymous ms) = .anonymous ds →
      c.types.member? (.anonymous ms) name = some ⟨name, t⟩ →
      c.types.member? (.anonymous ds) name = some ⟨name, d⟩ →
      Returns (c.dataPath t d path limit) T steps T' →
        ∃ limit' steps' T'', Returns (c.dataPath (.anonymous ms) (.anonymous ds) (name :: path)
          limit') T steps' T'' := by
  intro h
  have hrest : Returns (customers.dataPath customer customerEntity ["Name"] 1) table
      [.members [⟨"FullName", .string⟩]] table := rfl
  obtain ⟨limit, steps, T', hrun⟩ := h customers [⟨"Who", customer⟩] [⟨"Who", customerEntity⟩]
    "Who" _ _ _ _ _ _ _ (by decide) rfl rfl rfl rfl hrest
  cases limit with
  | zero => simp [dataPath, followPath] at hrun
  | succ limit =>
      have hfails := @run_dataPath_unmapped customers [⟨"Who", customer⟩] [⟨"Who", customerEntity⟩]
        "Who" ["Name"] limit table (by decide) rfl
      cases hfails.symm.trans hrun

end Configuration

end Recast
