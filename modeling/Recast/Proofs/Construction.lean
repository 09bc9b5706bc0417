import Mathlib.Data.List.Forall2
import Recast.Proofs.Resolution
import Recast.Proofs.TableGrowth

/-! # Construction of records

A record of a model type is built as a record of its data type.  An initialised member is
renamed to the data member that it is read from.  A member that is read from no single
data member keeps its name, so it is refused only if the data type has no member of that
name.

- `Configuration.Populates` — a single data member that a member is read from.
- `Recaster.returns_construct` — what becomes of a construction.
- `Recaster.recast_initialises` — the initialisers are those that the mapping reads.
-/

namespace Recast

/-! ## §1  Initialisers -/

theorem Registry.checkInits_eq_ok {r : Registry} {t : Ty} : ∀ {inits : List (String × Expr)},
    r.checkInits t inits = .ok () ↔
      ∀ i ∈ inits, ∃ m, r.member? t i.1 = some m ∧ r.isAssignable i.2.ty m.ty = true
  | [] => by simp [checkInits]
  | (name, e) :: inits => by
      simp only [checkInits, Checked.bind_eq_ok, requireMember_eq_ok, List.forall_mem_cons,
        ← @checkInits_eq_ok r t inits]
      constructor
      · rintro ⟨m, hm, h⟩
        split at h
        · exact ⟨⟨m, hm, ‹_›⟩, h⟩
        · cases h
      · rintro ⟨⟨m, hm, hfits⟩, h⟩
        exact ⟨m, hm, by rw [if_pos hfits]; exact h⟩

/-- The member is read from the single data member `d`, without a custom expression. -/
def Configuration.Populates (c : Configuration) (map : Mapping) (name : String) (d : Member) :
    Prop :=
  ∃ p, c.memberRule? map name = some p ∧ p.custom = none ∧ p.source = [d]

namespace Recaster

variable {w : Recaster} {self : Expr → RecastM Outcome} {map : Mapping} {model data : Ty}
  {inits : List (String × Expr)} {s s' : RecastState} {o : Outcome}

theorem dataName_of_populates {name : String} {d : Member}
    (h : w.config.Populates map name d) : w.dataName (some map) name = d.name := by
  obtain ⟨⟨m, source, custom, ignored⟩, hrule, rfl, rfl⟩ := h
  rw [dataName, Option.bind_some, hrule]
  rfl

/-- What is read by a custom expression, along a chain or not at all keeps its name. -/
theorem dataName_of_not_populates {name : String}
    (h : ¬ ∃ d, w.config.Populates map name d) : w.dataName (some map) name = name := by
  unfold dataName
  split
  · rename_i hrule
    obtain ⟨hrule, hcustom⟩ := Option.filter_eq_some_iff.mp hrule
    exact absurd ⟨_, _, hrule, Option.isNone_iff_eq_none.mp hcustom, rfl⟩ h
  · rfl

theorem length_all : ∀ {es vs : List Expr} {kept : Bool} {s s' : RecastState},
    Returns (all self es) s (vs, kept) s' → vs.length = es.length
  | [], vs, kept, s, s', h => by
      simp only [all, returns_pure, Prod.mk.injEq] at h
      rw [← h.1.1]
  | e :: es, vs, kept, s, s', h => by
      simp only [all, returns_bind, returns_pure, Prod.mk.injEq] at h
      obtain ⟨o, s₁, -, ⟨vs, kept⟩, s₂, hrest, ⟨rfl, -⟩, -⟩ := h
      simp [length_all hrest]

/-- A record is built of the data type that the table has in the end, since only the values are
recast. -/
theorem returns_construct (hmodel : w.types.isAnonymous model = false)
    (hdata : s'.table.dataType w.types model = data)
    (h : Returns (w.construct self model inits) s o s') :
    ∃ inits', o.on (.new model inits) = .new data inits' ∧
      (data ≠ model → w.types.checkInits data inits' = .ok () ∧
        ∃ values, values.length = inits.length ∧ inits' =
          (inits.map fun i => w.dataName (w.config.mapping? data model) i.1).zip values) := by
  simp only [construct, returns_bind] at h
  obtain ⟨⟨values, kept⟩, s₁, hvalues, h⟩ := h
  dsimp only at h
  rw [if_neg (by simp [hmodel])] at h
  obtain ⟨target, s₂, htarget, h⟩ := returns_bind.mp h
  obtain ⟨rfl, rfl⟩ := returns_dataType.mp htarget
  split at h
  · rename_i hsame
    have hsame' : s'.table.dataType w.types model = model → data = model := hdata.symm.trans
    split at h
    · obtain ⟨rfl, rfl⟩ := returns_pure.mp h
      obtain rfl := hsame' hsame
      exact ⟨inits, rfl, fun hne => absurd rfl hne⟩
    · obtain ⟨e, hmade, rfl⟩ := returns_map.mp h
      obtain ⟨hok, rfl⟩ := RecastM.returns_ofChecked.mp hmade
      obtain rfl := Registry.mkNew_eq_ok hok
      obtain rfl := hsame' hsame
      exact ⟨_, rfl, fun hne => absurd rfl hne⟩
  · obtain ⟨e, hmade, rfl⟩ := returns_map.mp h
    obtain ⟨hok, rfl⟩ := RecastM.returns_ofChecked.mp hmade
    obtain rfl : s₁.table.dataType w.types model = data := hdata
    simp only [Registry.mkNew, Checked.bind_eq_ok, Checked.pure_eq_ok, List.map_map] at hok
    obtain ⟨_, hinits, rfl⟩ := hok
    exact ⟨_, rfl, fun _ => ⟨hinits, values, by simpa using length_all hvalues, rfl⟩⟩

/-- An initialiser that passes the check names a member of the data type, so it has been renamed
if its own name is none. -/
theorem forall₂_populates {values : List Expr} (hlength : values.length = inits.length)
    (hinits : w.types.checkInits data
      ((inits.map fun i => w.dataName (some map) i.1).zip values) = .ok ())
    (hnames : ∀ i ∈ inits, (∃ d, w.config.Populates map i.1 d) ∨
      w.types.member? data i.1 = none) :
    List.Forall₂ (fun i i' => ∃ d, w.config.Populates map i.1 d ∧ i'.1 = d.name) inits
      ((inits.map fun i => w.dataName (some map) i.1).zip values) := by
  induction inits generalizing values with
  | nil => exact .nil
  | cons i inits ih =>
      cases values with
      | nil => cases hlength
      | cons v values =>
          obtain ⟨⟨m, hm, -⟩, hrest⟩ :=
            List.forall_mem_cons.mp (Registry.checkInits_eq_ok.mp hinits)
          obtain ⟨hname, hnames⟩ := List.forall_mem_cons.mp hnames
          refine .cons ?_ (ih (Nat.succ.inj hlength) (Registry.checkInits_eq_ok.mpr hrest) hnames)
          by_cases hread : ∃ d, w.config.Populates map i.1 d
          · obtain ⟨d, hd⟩ := hread
            exact ⟨d, hd, dataName_of_populates hd⟩
          · dsimp only at hm
            rw [dataName_of_not_populates hread, hname.resolve_left hread] at hm
            cases hm

/-! ## §2  Recasting a construction -/

/-- A record of the data type initialises what the mapping reads. -/
theorem initialises_of_returns {n : Nat} (hmodel : w.types.isAnonymous model = false)
    (hne : data ≠ model) (hmap : w.config.mapping? data model = some map)
    (hnames : ∀ i ∈ inits, (∃ d, w.config.Populates map i.1 d) ∨
      w.types.member? data i.1 = none)
    (h : Returns (w.recastWithin n (.new model inits)) s o s') :
    ∃ inits', o.on (.new model inits) = .new (s'.table.dataType w.types model) inits' ∧
      (s'.table.dataType w.types model = data →
        List.Forall₂ (fun i i' => ∃ d, w.config.Populates map i.1 d ∧ i'.1 = d.name)
          inits inits') := by
  cases n with
  | zero => cases returns_throw h
  | succ n =>
      obtain ⟨inits', ho, hinits⟩ := returns_construct hmodel rfl h
      refine ⟨inits', ho, ?_⟩
      rintro rfl
      obtain ⟨hcheck, values, hlength, rfl⟩ := hinits hne
      rw [hmap] at hcheck ⊢
      exact forall₂_populates hlength hcheck hnames

/-- **A record of a model type is built by initialising the data members that the mapping
reads.**  Each initialiser names, in its place, the single data member that populates the
initialised one, and a construction that initialises anything else fails; a member that is not read
from a single data member must not have a namesake on the data type, which would be initialised in
its place. -/
theorem recast_initialises {n : Nat} (hmodel : w.types.isAnonymous model = false)
    (hne : data ≠ model) (hmap : w.config.mapping? data model = some map)
    (hnames : ∀ i ∈ inits, (∃ d, w.config.Populates map i.1 d) ∨
      w.types.member? data i.1 = none) :
    (∀ o s' inits', Returns (w.recastWithin n (.new model inits)) s o s' →
      o.on (.new model inits) = .new data inits' →
        List.Forall₂ (fun i i' => ∃ d, w.config.Populates map i.1 d ∧ i'.1 = d.name)
          inits inits') ∧
    ((∃ i ∈ inits, ¬ ∃ d, w.config.Populates map i.1 d) →
      s.table.get? model = some data ∨
        ((w.recastWithin n (.new model inits)).run s).2.table.dataType w.types model = data →
      ∃ e, ((w.recastWithin n (.new model inits)).run s).1 = .error e) := by
  refine ⟨fun o s' inits' h ho => ?_, fun ⟨i, hi, hread⟩ hdata => ?_⟩
  · obtain ⟨built, ho', hall⟩ := initialises_of_returns hmodel hne hmap hnames h
    obtain ⟨hdata, rfl⟩ := Expr.new.inj (ho'.symm.trans ho)
    exact hall hdata
  · cases hrun : ((w.recastWithin n (.new model inits)).run s).1 with
    | error e => exact ⟨e, rfl⟩
    | ok o =>
        have h := returns_of_run hrun
        have hgrows := (w.respects_grows.recastWithin n _ fun _ _ => trivial).of_returns h
        obtain ⟨inits', -, hall⟩ := initialises_of_returns hmodel hne hmap hnames h
        have hpopulated := hall <| hdata.elim
          (fun hentry => TypeTable.dataType_of_get? _ _
            (TypeTable.get?_mono hgrows.entries hentry)) id
        have heach : ∀ i ∈ inits, ∃ d, w.config.Populates map i.1 d :=
          ((List.forall₂_and_left _ _).mp (hpopulated.imp fun _ _ ⟨d, hd, _⟩ =>
            And.intro ⟨d, hd⟩ trivial)).1
        exact absurd (heach i hi) hread

/-! ### People with two names -/

namespace People

def person : Ty := .declared 0

def personModel : Ty := .declared 1

def name : Member := ⟨"Name", .string⟩

def fullName : Member := ⟨"FullName", .string⟩

def label : Member := ⟨"Label", .string⟩

def registry : Registry :=
  { declarations := [.record "Person" none [name, fullName],
      .record "PersonModel" none [name, label]] }

/-- `p => p.FullName` -/
def readFullName : Expr :=
  Registry.mkLambda [⟨0, "p", person⟩] (.member (.param ⟨0, "p", person⟩) fullName)

def plainly : MemberRule := { member := name, source := [fullName] }

def byLambda (m : Member) : MemberRule := { member := m, custom := some readFullName }

/-- The name of the model is read as given, its label by a custom lambda. -/
def mapping (nameRule : MemberRule) : Mapping :=
  { source := person, destination := personModel, rules := [nameRule, byLambda label] }

def recaster (nameRule : MemberRule) : Recaster :=
  { config := ⟨registry, [mapping nameRule]⟩, mapper := .keep, options := {} }

def registered : RecastState := { table := ⟨[(personModel, person)]⟩ }

def text : Expr := .const (.str "Ada") .string

end People

open People in
/-- The name is read from the full name, and that is what is initialised; a label is none of
the person's members. -/
theorem recast_initialises_people :
    (((recaster plainly).recastWithin 3 (.new personModel [("Name", text)])).run registered).1 =
      .ok (.made (.new person [("FullName", text)])) ∧
    List.Forall₂ (fun i i' => ∃ d,
        (recaster plainly).config.Populates (mapping plainly) i.1 d ∧ i'.1 = d.name)
      [("Name", text)] [("FullName", text)] ∧
    ∃ e, (((recaster plainly).recastWithin 3
      (.new personModel [("Name", text), ("Label", text)])).run registered).1 = .error e := by
  have hrun : (((recaster plainly).recastWithin 3 (.new personModel [("Name", text)])).run
      registered).1 = .ok (.made (.new person [("FullName", text)])) := rfl
  have hname : (recaster plainly).config.Populates (mapping plainly) "Name" fullName :=
    ⟨_, rfl, rfl, rfl⟩
  have hlabel : ¬ ∃ d, (recaster plainly).config.Populates (mapping plainly) "Label" d := by
    rintro ⟨d, p, hp, hcustom, -⟩
    cases hp
    cases hcustom
  refine ⟨hrun, (recast_initialises rfl (by decide) rfl ?_).1 _ _ _ (returns_of_run hrun) rfl,
    (recast_initialises rfl (by decide) rfl ?_).2 ⟨("Label", text), by simp, hlabel⟩ (.inl rfl)⟩
  · simpa using .inl ⟨_, hname⟩
  · simpa using ⟨.inl ⟨_, hname⟩, .inr rfl⟩

open People in
/-- A name that is read by a custom lambda is written to the name of the person. -/
theorem recast_initialises_fails :
    ¬ ∀ (w : Recaster) (n : Nat) (model data : Ty) (map : Mapping)
      (inits inits' : List (String × Expr)) (s s' : RecastState) (o : Outcome),
      w.types.isAnonymous model = false → data ≠ model →
      w.config.mapping? data model = some map → s.table.get? model = some data →
      Returns (w.recastWithin n (.new model inits)) s o s' →
      o.on (.new model inits) = .new data inits' →
        List.Forall₂ (fun i i' => ∃ d, w.config.Populates map i.1 d ∧ i'.1 = d.name)
          inits inits' := by
  intro h
  let w := recaster (byLambda name)
  have hrun : Returns (w.recastWithin 3 (.new personModel [("Name", text)])) registered
      (.made (.new person [("Name", text)]))
      ((w.recastWithin 3 (.new personModel [("Name", text)])).run registered).2 := rfl
  have hall := h w 3 personModel person _ _ _ _ _ _ rfl (by decide) rfl rfl hrun rfl
  cases hall with
  | cons hfirst =>
      obtain ⟨d, ⟨p, hp, hcustom, -⟩, -⟩ := hfirst
      cases hp
      cases hcustom

end Recaster

end Recast
