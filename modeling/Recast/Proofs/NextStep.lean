import Recast.Proofs.Coherence
import Recast.Recaster.Path

/-! # The next step of a path

Between two different types the next segment of a path is followed in one of four ways.
They are said once, as the cases of a relation, and the step that is taken is proved to be
one of them; what is true of steps is read off the cases.

- `Configuration.ReadAlike` — types that are read by the same members on both sides.
- `Configuration.Advances` — everything that the next step can be.
- `Configuration.returns_advance` — the step that is taken is one of these.
- `Configuration.followPath_ends` — what every step keeps, a path keeps.
-/

namespace Recast

namespace Configuration

/-! ## §1  One step -/

variable (c : Configuration)

/-- Values of a literal type are not taken for values of another one. -/
def LiteralsAgree (model data : Ty) : Prop :=
  model = data ∨ ¬ (c.types.isLiteral model = true ∧ c.types.isLiteral data = true)

/-- The types are read alike: by the same members on both sides. -/
def ReadAlike (model data : Ty) : Prop :=
  c.sharesFormer model data = true ∨
    (c.types.isLiteral model = true ∧ c.types.isLiteral data = true)

/-- What the next segment can come to between two types, and the table afterwards. -/
inductive Advances (model data : Ty) (name : String) (rest : List String) (t : TypeTable) :
    Advance → TypeTable → Prop where
  | alike {m d : Member} {t' : TypeTable} (types : c.ReadAlike model data)
      (onModel : c.types.member? model name = some m) (onData : c.types.member? data name = some d)
      (related : Returns (c.relate m.ty d.ty) t () t') :
      Advances model data name rest t ⟨.members [d], m.ty, d.ty, 0⟩ t'
  | members {map : Mapping} {m : Member} {p : MemberRule} (types : ¬ c.ReadAlike model data)
      (mapped : c.mapping? data model = some map)
      (noPath : c.longestPathRule? map (name :: rest) = none)
      (onModel : c.types.member? model name = some m) (own : c.memberRule? map name = some p)
      (used : (p.isFed && !p.ignored) = true) (plain : p.custom = none)
      (literals : c.LiteralsAgree m.ty (Registry.chainEnd data p.source)) :
      Advances model data name rest t
        ⟨.members p.source, m.ty, Registry.chainEnd data p.source, 0⟩ t
  | custom {map : Mapping} {m : Member} {p : MemberRule} {lambda : Expr}
      (types : ¬ c.ReadAlike model data) (mapped : c.mapping? data model = some map)
      (noPath : c.longestPathRule? map (name :: rest) = none)
      (onModel : c.types.member? model name = some m) (own : c.memberRule? map name = some p)
      (used : (p.isFed && !p.ignored) = true) (spliced : p.custom = some lambda) :
      Advances model data name rest t ⟨.custom lambda, m.ty, p.inputType?.getD m.ty, 0⟩ t
  | path {map : Mapping} {n : Nat} {p : PathRule} {ms : List Member} {params : List Parameter}
      {body : Expr} {ty : Ty} (types : ¬ c.ReadAlike model data)
      (mapped : c.mapping? data model = some map)
      (longest : c.longestPathRule? map (name :: rest) = some (n, p))
      (onModel : c.types.requireMembers model ((name :: rest).take n) = .ok ms)
      (parts : p.custom.lambdaParts? = some (params, body, ty)) :
      Advances model data name rest t
        ⟨.custom p.custom, (ms.getLast?.map (·.ty)).getD model, body.ty,
          ((name :: rest).take n).length - 1⟩ t

variable {c} {fullPath name : String} {model data : Ty} {path rest : List String} {map : Mapping}
  {a : Advance} {t t' : TypeTable}

/-- The check of a rule. -/
theorem literalsAgree_iff : c.LiteralsAgree model data ↔
    ¬ (c.types.isLiteral model && c.types.isLiteral data && model != data) = true := by
  by_cases hsame : model = data <;> simp [LiteralsAgree, hsame]

theorem readAlike_iff : c.ReadAlike model data ↔
    (c.sharesFormer model data || (c.types.isLiteral model && c.types.isLiteral data)) = true := by
  simp [ReadAlike]

theorem inputType?_getD {p : MemberRule} {ty : Ty} (data : Ty) (hplain : p.custom = none)
    (hfed : p.isFed = true) : p.inputType?.getD ty = Registry.chainEnd data p.source := by
  have hsource : p.source ≠ [] := by
    rintro hnil
    simp [MemberRule.isFed, hplain, hnil] at hfed
  simp [MemberRule.inputType?, hplain, Registry.chainEnd_eq_getLast?,
    List.getLast?_eq_some_getLast hsource]

/-- The rule of a member gives its custom lambda, or its source if that mixes up no literals. -/
theorem advanceByRule_eq_ok : c.advanceByRule map fullPath model data name = .ok a ↔
    ∃ m p, c.types.member? model name = some m ∧ c.memberRule? map name = some p ∧
      (p.isFed && !p.ignored) = true ∧
      ((∃ lambda, p.custom = some lambda ∧
          a = ⟨.custom lambda, m.ty, p.inputType?.getD m.ty, 0⟩) ∨
        p.custom = none ∧ c.LiteralsAgree m.ty (Registry.chainEnd data p.source) ∧
          a = ⟨.members p.source, m.ty, Registry.chainEnd data p.source, 0⟩) := by
  simp only [advanceByRule, Checked.bind_eq_ok, Registry.requireMember_eq_ok]
  constructor
  · rintro ⟨m, hm, h⟩
    split at h
    · cases h
    · rename_i p hp
      obtain ⟨hown, hused⟩ := Option.filter_eq_some_iff.mp hp
      refine ⟨m, p, hm, hown, hused, ?_⟩
      cases hcustom : p.custom with
      | some lambda =>
          simp only [hcustom] at h
          cases h
          exact .inl ⟨lambda, rfl, rfl⟩
      | none =>
          have hfed : p.isFed = true := (Bool.and_eq_true _ _ ▸ hused).1
          simp only [hcustom, inputType?_getD data hcustom hfed] at h
          split at h
          · cases h
          · rename_i hliterals
            cases h
            exact .inr ⟨rfl, literalsAgree_iff.mpr hliterals, rfl⟩
  · rintro ⟨m, p, hm, hown, hused, h⟩
    have hrule : (c.memberRule? map name).filter (fun p => p.isFed && !p.ignored) = some p :=
      Option.filter_eq_some_iff.mpr ⟨hown, hused⟩
    refine ⟨m, hm, ?_⟩
    rcases h with ⟨lambda, hcustom, rfl⟩ | ⟨hcustom, hliterals, rfl⟩
    · simp only [hrule, hcustom]
      rfl
    · have hfed : p.isFed = true := (Bool.and_eq_true _ _ ▸ hused).1
      simp only [hrule, hcustom, inputType?_getD data hcustom hfed]
      rw [if_neg (literalsAgree_iff.mp hliterals)]
      rfl

theorem advanceByPathRule_eq_ok {p : PathRule} : c.advanceByPathRule model path p = .ok a ↔
    ∃ ms params body ty, c.types.requireMembers model path = .ok ms ∧
      p.custom.lambdaParts? = some (params, body, ty) ∧
      a = ⟨.custom p.custom, (ms.getLast?.map (·.ty)).getD model, body.ty, path.length - 1⟩ := by
  simp only [advanceByPathRule, Checked.bind_eq_ok]
  constructor
  · rintro ⟨ms, hms, h⟩
    split at h
    · rename_i params body ty hparts
      cases h
      exact ⟨ms, params, body, ty, hms, hparts, rfl⟩
    · cases h
  · rintro ⟨ms, params, body, ty, hms, hparts, rfl⟩
    refine ⟨ms, hms, ?_⟩
    rw [hparts]
    rfl

/-- **The next step is one of these.**  The path as a whole has no say in it. -/
theorem returns_advance : Returns (c.advance fullPath model data name rest) t a t' ↔
    c.Advances model data name rest t a t' := by
  unfold advance
  by_cases htypes : c.ReadAlike model data
  · simp only [if_pos (readAlike_iff.mp htypes), advanceAlike, returns_bind,
      TableM.returns_ofChecked, returns_pure, Registry.requireMember_eq_ok]
    constructor
    · rintro ⟨m, _, ⟨hm, rfl⟩, d, _, ⟨hd, rfl⟩, _, _, hrelate, rfl, rfl⟩
      exact .alike htypes hm hd hrelate
    · intro h
      cases h with
      | alike _ hm hd hrelate => exact ⟨_, t, ⟨hm, rfl⟩, _, t, ⟨hd, rfl⟩, (), t', hrelate, rfl, rfl⟩
      | members hnot => exact absurd htypes hnot
      | custom hnot => exact absurd htypes hnot
      | path hnot => exact absurd htypes hnot
  · rw [if_neg (mt readAlike_iff.mpr htypes), TableM.returns_ofChecked]
    constructor
    · rintro ⟨h, rfl⟩
      unfold advanceByMapping at h
      split at h
      · cases h
      · rename_i map hmap
        split at h
        · rename_i n p hp
          obtain ⟨ms, params, body, ty, hms, hparts, rfl⟩ := advanceByPathRule_eq_ok.mp h
          exact .path htypes hmap hp hms hparts
        · rename_i hpath
          obtain ⟨m, p, hm, hown, hused, ⟨lambda, hcustom, rfl⟩ | ⟨hcustom, hliterals, rfl⟩⟩ :=
            advanceByRule_eq_ok.mp h
          · exact .custom htypes hmap hpath hm hown hused hcustom
          · exact .members htypes hmap hpath hm hown hused hcustom hliterals
    · intro h
      unfold advanceByMapping
      cases h with
      | alike hthere => exact absurd hthere htypes
      | members _ hmap hpath hm hown hused hcustom hliterals =>
          simp only [hmap, hpath, and_true]
          exact advanceByRule_eq_ok.mpr
            ⟨_, _, hm, hown, hused, .inr ⟨hcustom, hliterals, rfl⟩⟩
      | custom _ hmap hpath hm hown hused hcustom =>
          simp only [hmap, hpath, and_true]
          exact advanceByRule_eq_ok.mpr ⟨_, _, hm, hown, hused, .inl ⟨_, hcustom, rfl⟩⟩
      | path _ hmap hpath hms hparts =>
          simp only [hmap, hpath, and_true]
          exact advanceByPathRule_eq_ok.mpr ⟨_, _, _, _, hms, hparts, rfl⟩

/-! ## §2  Following a path -/

/-- What every step keeps, and the rest of a path of one type as well, is kept by following a path.
It may speak of the data type that has been reached. -/
theorem followPath_ends {P : Ty → List DataStep → Prop} {limit : Nat}
    (hsame : ∀ ty path ms steps, c.types.requireMembers ty path = .ok ms → P ty steps →
      ∃ u, P u (DataStep.appendMembers steps ms))
    (hstep : ∀ model data name rest t a t' steps, c.Advances model data name rest t a t' →
      P data steps → P a.data (appendStep steps a.step)) :
    ∀ {budget : Nat} {model data : Ty} {path : List String} {steps steps' : List DataStep}
      {t t' : TypeTable},
      Returns (c.followPath limit fullPath budget model data path steps) t steps' t' →
        P data steps → ∃ u, P u steps'
  | _, _, data, [], _, _, _, _, h, hsteps => by
      rw [followPath] at h
      obtain ⟨rfl, -⟩ := returns_pure.mp h
      exact ⟨data, hsteps⟩
  | 0, _, _, _ :: _, _, _, _, _, h, _ => absurd h returns_throw
  | budget + 1, model, data, name :: rest, steps, steps', t, t', h, hsteps => by
      rw [followPath] at h
      split at h
      · rename_i heq
        simp only [returns_bind, TableM.returns_ofChecked, returns_pure] at h
        obtain ⟨ms, _, ⟨hms, -⟩, rfl, -⟩ := h
        exact hsame data _ ms steps (heq ▸ hms) hsteps
      · obtain ⟨a, t₁, ha, hrest⟩ := returns_bind.mp h
        exact followPath_ends hsame hstep hrest
          (hstep _ _ _ _ _ _ _ _ (returns_advance.mp ha) hsteps)

end Configuration

end Recast
