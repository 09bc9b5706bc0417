import Recast.Recaster.Lambda

/-! # Runs of computations

Registration, recasting and evaluation share one shape: they may fail and they
carry a state.  `Returns` says that a computation ends well, with which result
and in which state, and the lemmas take a run of a composed computation apart
into the runs of its parts.
-/

namespace Recast

/-- The computation ends well from `s`, with `a` and in `s'`. -/
def Returns {ε σ α : Type} (x : ExceptT ε (StateM σ) α) (s : σ) (a : α) (s' : σ) : Prop :=
  x.run s = (.ok a, s')

theorem returns_of_run {ε σ α : Type} {x : ExceptT ε (StateM σ) α} {s : σ} {a : α}
    (h : (x.run s).1 = .ok a) : Returns x s a (x.run s).2 :=
  Prod.ext h rfl

section Runs

variable {ε σ α β : Type} {s s' : σ} {a : α} {b : β}

/-! ## Composition -/

@[simp] theorem returns_pure {a b : α} :
    Returns (pure a : ExceptT ε (StateM σ) α) s b s' ↔ a = b ∧ s = s' := by
  constructor
  · intro h
    cases h
    exact ⟨rfl, rfl⟩
  · rintro ⟨rfl, rfl⟩
    rfl

@[simp] theorem returns_throw {e : ε} :
    ¬ Returns (throw e : ExceptT ε (StateM σ) α) s a s' := by
  intro h
  cases h

theorem run_bind {x : ExceptT ε (StateM σ) α} {f : α → ExceptT ε (StateM σ) β} (s : σ) :
    (x >>= f).run s =
      match x.run s with
      | (.ok a, s') => (f a).run s'
      | (.error e, s') => (.error e, s') := by
  simp only [bind, ExceptT.bind, ExceptT.bindCont, ExceptT.run, ExceptT.mk, StateT.bind]
  rcases x s with ⟨r, s'⟩
  cases r <;> rfl

@[simp] theorem returns_bind {x : ExceptT ε (StateM σ) α} {f : α → ExceptT ε (StateM σ) β}
    {s'' : σ} :
    Returns (x >>= f) s b s'' ↔ ∃ a s', Returns x s a s' ∧ Returns (f a) s' b s'' := by
  simp only [Returns, run_bind]
  rcases x.run s with ⟨r, s'⟩
  cases r with
  | error e =>
      constructor
      · intro h
        cases h
      · rintro ⟨_, _, h, -⟩
        cases h
  | ok a =>
      constructor
      · intro h
        exact ⟨a, s', rfl, h⟩
      · rintro ⟨_, _, h, hf⟩
        cases h
        exact hf

@[simp] theorem returns_map {x : ExceptT ε (StateM σ) α} {f : α → β} :
    Returns (f <$> x) s b s' ↔ ∃ a, Returns x s a s' ∧ f a = b := by
  rw [map_eq_pure_bind, returns_bind]
  simp only [returns_pure]
  constructor
  · rintro ⟨a, _, h, e, rfl⟩
    exact ⟨a, h, e⟩
  · rintro ⟨a, h, e⟩
    exact ⟨a, s', h, e, rfl⟩

/-! ## State -/

@[simp] theorem returns_get {t : σ} :
    Returns (get : ExceptT ε (StateM σ) σ) s t s' ↔ s = t ∧ s = s' := by
  constructor
  · intro h
    cases h
    exact ⟨rfl, rfl⟩
  · rintro ⟨rfl, rfl⟩
    rfl

@[simp] theorem returns_set {t : σ} {u : PUnit} :
    Returns (set t : ExceptT ε (StateM σ) PUnit) s u s' ↔ t = s' := by
  constructor
  · intro h
    cases h
    rfl
  · rintro rfl
    rfl

@[simp] theorem returns_modify {f : σ → σ} {u : PUnit} :
    Returns (modify f : ExceptT ε (StateM σ) PUnit) s u s' ↔ f s = s' := by
  constructor
  · intro h
    cases h
    rfl
  · rintro rfl
    rfl

end Runs

/-! ## Checks and the table inside a run -/

@[simp] theorem RecastM.returns_ofChecked {α : Type} {x : Checked α} {s s' : RecastState} {a : α} :
    Returns (RecastM.ofChecked x) s a s' ↔ x = .ok a ∧ s = s' := by
  cases x with
  | error e => simp [RecastM.ofChecked]
  | ok b => simp [RecastM.ofChecked]

@[simp] theorem TableM.returns_ofChecked {α : Type} {x : Checked α} {s s' : TypeTable} {a : α} :
    Returns (TableM.ofChecked x) s a s' ↔ x = .ok a ∧ s = s' := by
  cases x with
  | error e => simp [TableM.ofChecked]
  | ok b => simp [TableM.ofChecked]

@[simp] theorem RecastM.returns_onTable {α : Type} {x : TableM α} {s s' : RecastState} {a : α} :
    Returns (RecastM.onTable x) s a s' ↔
      ∃ t, Returns x s.table a t ∧ { s with table := t } = s' := by
  simp only [Returns, RecastM.onTable, ExceptT.run]
  rcases x s.table with ⟨r, t⟩
  cases r with
  | error e =>
      constructor
      · intro h; cases h
      · rintro ⟨t, h, -⟩; cases h
  | ok b =>
      constructor
      · intro h; cases h; exact ⟨t, rfl, rfl⟩
      · rintro ⟨t, h, rfl⟩; cases h; rfl

/-! ## Looking up types and replacing parameters -/

/-- The state with the look-up of a type noted. -/
def RecastState.lookUp (r : Registry) (t : Ty) (s : RecastState) : RecastState :=
  { s with
    built := s.built ++ (s.table.resolutions r t).map (·.2),
    resolved := s.resolved ++ s.table.resolutions r t }

theorem Recaster.returns_dataType {w : Recaster} {s s' : RecastState} {t t' : Ty} :
    Returns (w.dataType t) s t' s' ↔
      s.table.dataType w.types t = t' ∧ s.lookUp w.types t = s' := by
  simp only [Recaster.dataType, RecastM.noteResolved, returns_bind, returns_get, returns_modify,
    returns_pure]
  constructor
  · rintro ⟨_, _, ⟨rfl, rfl⟩, _, _, rfl, rfl, rfl⟩
    exact ⟨rfl, rfl⟩
  · rintro ⟨rfl, rfl⟩
    exact ⟨s, s, ⟨rfl, rfl⟩, (), _, rfl, rfl, rfl⟩

theorem Recaster.returns_replace {w : Recaster} {s s' : RecastState} {p p' : Parameter} :
    Returns (w.replace p) s p' s' ↔
      ∃ replacements fresh,
        s.replacements.replace p (s.table.dataType w.types p.ty) s.fresh =
          (p', replacements, fresh) ∧
        { s.lookUp w.types p.ty with replacements := replacements, fresh := fresh } = s' := by
  simp only [Recaster.replace, returns_bind, returns_dataType, returns_get, returns_set,
    returns_pure]
  constructor
  · rintro ⟨_, _, ⟨rfl, rfl⟩, _, _, ⟨rfl, rfl⟩, _, _, rfl, rfl, rfl⟩
    exact ⟨_, _, rfl, rfl⟩
  · rintro ⟨_, _, h, rfl⟩
    refine ⟨_, _, ⟨rfl, rfl⟩, _, _, ⟨rfl, rfl⟩, (), _, rfl, ?_⟩
    simp only [RecastState.lookUp] at h ⊢
    rw [h]
    exact ⟨rfl, rfl⟩

/-! ## Recasting a lambda -/

/-- The state without the replacements that an earlier recasting has left. -/
def RecastState.cleared (s : RecastState) : RecastState := { s with replacements := {} }

/-- A recasting that ends well has seeded the table, recast the lambda with no replacements left
over, and finished what came out as it was asked to. -/
theorem LambdaRecaster.returns_recast {m : LambdaRecaster} {e : Expr} {pair : Option TyPair}
    {asInclude : Bool} {o : Outcome} {s s' : RecastState} :
    Returns (m.recast e pair asInclude) s o s' ↔
      ∃ params body t s₁ o₁, e.lambdaParts? = some (params, body, t) ∧
        Returns (m.seed params pair) s () s₁ ∧
        Returns ((⟨m.config, m.mapper, m.options, asInclude⟩ : Recaster).recast (unquoted e))
          s₁.cleared o₁ s' ∧ m.finish e pair o₁ = .ok o := by
  unfold recast
  constructor
  · intro h
    split at h
    · exact absurd h returns_throw
    · rename_i params body t hparts
      simp only [returns_bind, returns_modify, RecastM.returns_ofChecked] at h
      obtain ⟨_, s₁, hseed, _, _, rfl, o₁, _, hrun, hfinish, rfl⟩ := h
      exact ⟨params, body, t, s₁, o₁, hparts, hseed, hrun, hfinish⟩
  · rintro ⟨params, body, t, s₁, o₁, hparts, hseed, hrun, hfinish⟩
    rw [hparts]
    simp only [returns_bind, returns_modify, RecastM.returns_ofChecked]
    exact ⟨(), s₁, hseed, (), _, rfl, o₁, _, hrun, hfinish, rfl⟩

/-! ## Checks -/

section Checks

variable {ε α β : Type} {x : Except ε α}

@[simp] theorem Checked.bind_eq_ok {f : α → Except ε β} {b : β} :
    (x >>= f) = .ok b ↔ ∃ a, x = .ok a ∧ f a = .ok b := by
  cases x with
  | error e => simp [bind, Except.bind]
  | ok a => simp [bind, Except.bind]

@[simp] theorem Checked.pure_eq_ok {a b : α} : (pure a : Except ε α) = .ok b ↔ a = b := by
  simp [pure, Except.pure]

@[simp] theorem Checked.map_eq_ok {f : α → β} {b : β} :
    (f <$> x) = .ok b ↔ ∃ a, x = .ok a ∧ f a = b := by
  cases x with
  | error e => simp [Functor.map, Except.map]
  | ok a => simp [Functor.map, Except.map]

end Checks

end Recast
