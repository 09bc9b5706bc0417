import Recast.Proofs.RowQueries
import Recast.Proofs.Selectors

/-! # Largest and smallest values

The extreme of a sequence is found in one pass, by a best value that gives way to those that go
before it.  From a value that is not null the pass arrives at an extreme of all values, which is
the same one up to equality in whichever order they come.  A null gives way to none, so a
sequence that begins with one has no other extreme.

- `IsExtreme` — an extreme of some values, nulls left out.
- `IsExtreme.better`, `IsExtreme.foldl_better` — the best value stays the extreme of the values
  seen, through one step and through a pass.
- `Registry.SelectorCall.extreme_iff` — when evaluation finds an extreme, and when sequences of
  the same items have equal ones.
-/

namespace Recast

/-! ## §1  One pass over values -/

/-- One of the values, no null, that none of them goes before. -/
structure IsExtreme (descending : Bool) (values : List Value) (best : Value) : Prop where
  mem : best ∈ values
  ne_null : best ≠ .null
  first : ∀ v ∈ values, v.goesBefore descending best = false

/-- The first of the values is null. -/
def StartsNull (values : List Value) : Prop := values.head? = some .null

variable {kind : KeyKind} {descending : Bool} {best best' v : Value} {values values' : List Value}

theorem IsExtreme.better (h : IsExtreme descending values best)
    (hkind : kind.HasAll (values ++ [v])) :
    IsExtreme descending (values ++ [v]) (better descending best v) := by
  have hv : v ∈ values ++ [v] := by simp
  cases hgoes : v.goesBefore descending best with
  | false =>
      rw [Recast.better, hgoes, if_neg Bool.false_ne_true]
      refine ⟨List.mem_append_left _ h.mem, h.ne_null, fun w hw => ?_⟩
      rcases List.mem_append.mp hw with hw | hw
      · exact h.first w hw
      · rwa [List.mem_singleton.mp hw]
  | true =>
      rw [Recast.better, hgoes, if_pos rfl]
      have hne : v ≠ .null := by
        rintro rfl
        cases hgoes
      have hhas := hkind.has hv hne
      have hbest := hkind.has (List.mem_append_left _ h.mem) h.ne_null
      refine ⟨hv, hne, fun w hw => ?_⟩
      by_cases hnull : w = .null
      · exact Value.goesBefore_null (.inl hnull)
      -- What was not before the old best value is not before the one that takes over either.
      rcases List.mem_append.mp hw with hmem | hmem
      · exact (hkind.has hw hnull).goesBefore_eq_false hhas hbest (h.first w hmem) hgoes
      · rw [List.mem_singleton.mp hmem]
        exact hhas.goesBefore_self

/-- By induction on the values ahead: the best one is an extreme of those seen. -/
theorem IsExtreme.foldl_better (h : IsExtreme descending values best)
    (hkind : kind.HasAll (values ++ values')) :
    IsExtreme descending (values ++ values') (values'.foldl (Recast.better descending) best) := by
  induction values' generalizing values best with
  | nil => simpa using h
  | cons v rest ih =>
      rw [List.append_cons] at hkind ⊢
      exact ih (h.better fun w hw => hkind w (List.mem_append_left _ hw)) hkind

/-- Two extremes of the same values are equal. -/
theorem IsExtreme.beq (h : IsExtreme descending values best)
    (h' : IsExtreme descending values' best') (hkind : kind.HasAll values)
    (hmem : ∀ v, v ∈ values' ↔ v ∈ values) : (best == best') = true := by
  have hbest := hkind.has h.mem h.ne_null
  have hbest' := hkind.has ((hmem _).mp h'.mem) h'.ne_null
  have hfirst := h'.first best ((hmem _).mpr h.mem)
  exact hbest.beq hbest' hfirst (h.first best' ((hmem _).mp h'.mem))

theorem foldl_better_null (values : List Value) :
    values.foldl (better descending) .null = .null := by
  induction values with
  | nil => rfl
  | cons v rest ih =>
      rw [List.foldl_cons, better, Value.goesBefore_null (.inr rfl), if_neg Bool.false_ne_true, ih]

theorem isExtreme_singleton (hv : v ≠ .null) (hhas : kind.Has v) :
    IsExtreme descending [v] v := by
  refine ⟨List.mem_singleton_self v, hv, fun w hw => ?_⟩
  rw [List.mem_singleton.mp hw]
  exact hhas.goesBefore_self

/-- A first value that is null stays, and any other one leads to an extreme. -/
theorem bestOf_spec (hkind : kind.HasAll values) (hne : values ≠ []) :
    ∃ best, bestOf descending values = some best ∧ (best = .null ↔ StartsNull values) ∧
      (¬ StartsNull values → IsExtreme descending values best) := by
  obtain ⟨v, rest, rfl⟩ := List.exists_cons_of_ne_nil hne
  refine ⟨_, rfl, ?_⟩
  by_cases hv : v = .null
  · subst hv
    rw [foldl_better_null]
    exact ⟨iff_of_true rfl rfl, absurd rfl⟩
  · have hstarts : ¬ StartsNull (v :: rest) := fun h => hv (Option.some.inj h)
    have hextreme : IsExtreme descending (v :: rest) (rest.foldl (better descending) v) :=
      (isExtreme_singleton hv (hkind.has List.mem_cons_self hv)).foldl_better hkind
    exact ⟨iff_of_false hextreme.ne_null hstarts, fun _ => hextreme⟩

theorem Value.null_beq : (Value.null == v) = true ↔ v = .null := by
  cases v with
  | null => exact iff_of_true rfl rfl
  | _ => exact iff_of_false Bool.false_ne_true nofun

theorem Value.beq_null : (v == Value.null) = true ↔ v = .null := by
  cases v with
  | null => exact iff_of_true rfl rfl
  | _ => exact iff_of_false Bool.false_ne_true nofun

/-! ## §2  Evaluation -/

namespace Registry

variable {r : Registry} {n : Nat} {env : Env} {items : List Value} {key : Value → Value}
  {call : Expr}

/-- **Evaluation finds an extreme unless the first value is null.**  Over items whose values are of
one kind or null, the call succeeds with an extreme of the values, or with null if it is the value
of the first item.  Calls over the same items in another order have equal results exactly if both
begin with a null or neither does. -/
theorem SelectorCall.extreme_iff (hkind : kind.HasAll (items.map key)) (hne : items ≠ [])
    (hcall : r.SelectorCall n env (extremeName descending) items key call) :
    ∃ best, (r.eval (n + 1) call).run env = (.ok best, env) ∧
      (best = .null ↔ StartsNull (items.map key)) ∧
      (¬ StartsNull (items.map key) → IsExtreme descending (items.map key) best) ∧
      ∀ {n' : Nat} {env' : Env} {items' : List Value} {call' : Expr}, items'.Perm items →
        r.SelectorCall n' env' (extremeName descending) items' key call' →
          ∃ best', (r.eval (n' + 1) call').run env' = (.ok best', env') ∧
            ((best == best') = true ↔
              (StartsNull (items.map key) ↔ StartsNull (items'.map key))) := by
  obtain ⟨best, hbest, hnull, hextreme⟩ := bestOf_spec hkind (mt List.map_eq_nil_iff.mp hne)
  refine ⟨best, by rw [hcall.run_extreme, hbest]; rfl, hnull, hextreme, ?_⟩
  intro n' env' items' call' hperm hcall'
  have hmem : ∀ w, w ∈ items'.map key ↔ w ∈ items.map key := fun w => (hperm.map key).mem_iff
  have hne' : items' ≠ [] := fun h => hne (List.nil_perm.mp (h ▸ hperm))
  obtain ⟨best', hbest', hnull', hextreme'⟩ := bestOf_spec
    (fun w hw => hkind w ((hmem w).mp hw)) (mt List.map_eq_nil_iff.mp hne')
  refine ⟨best', by rw [hcall'.run_extreme, hbest']; rfl, ?_⟩
  -- A null equals nothing but a null, and two extremes equal each other.
  by_cases hstarts : StartsNull (items.map key)
  · rw [hnull.mpr hstarts, Value.null_beq, hnull', iff_true_left hstarts]
  · by_cases hstarts' : StartsNull (items'.map key)
    · rw [hnull'.mpr hstarts', Value.beq_null, hnull, iff_true_right hstarts']
    · exact iff_of_true ((hextreme hstarts).beq (hextreme' hstarts') hkind hmem)
        (iff_of_false hstarts hstarts')

/-! ### The oldest and the youngest -/

namespace Oldest

def extremeMethod (descending : Bool) : Method :=
  RowQuery.Numbers.method (extremeName descending) [.nullable .int32, .nullable .int32]

theorem hasAll_known_first : KeyKind.integer.HasAll ([.int 3, .null].map id) := by
  simp [KeyKind.has_int, inInt64, int64Min, int64Max]

theorem hasAll_unknown_first : KeyKind.integer.HasAll ([.null, .int 3].map id) := by
  simp [KeyKind.has_int, inInt64, int64Min, int64Max]

end Oldest

open Ages Oldest in
/-- An unknown age behind a known one is not the oldest, and before it hides the oldest. -/
theorem SelectorCall.extreme_iff_ages :
    ∃ best, (({} : Registry).eval 2 (Ages.call (extremeMethod true) [.int 3, .null])).run .empty =
        (.ok best, .empty) ∧ IsExtreme true [.int 3, .null] best ∧
      ∃ best', (({} : Registry).eval 2
          (Ages.call (extremeMethod true) [.null, .int 3])).run .empty = (.ok best', .empty) ∧
        (best == best') = false := by
  obtain ⟨best, hrun, -, hextreme, hother⟩ := @SelectorCall.extreme_iff _ true _ _ _ _ _ _
    hasAll_known_first (List.cons_ne_nil _ _)
    (call_selects {} 0 .empty (m := extremeMethod true) _ rfl)
  obtain ⟨best', hrun', hequal⟩ := hother (.swap _ _ _)
    (call_selects {} 0 .empty (m := extremeMethod true) _ rfl)
  refine ⟨best, hrun, hextreme nofun, best', hrun', ?_⟩
  rw [← Bool.not_eq_true, hequal]
  intro hstarts
  cases hstarts.mpr rfl

open Ages Oldest in
/-- An unknown age in front is taken for the oldest, and other orders of the ages give another
oldest. -/
theorem SelectorCall.extreme_fails :
    (¬ ∀ (kind : KeyKind) (key : Value → Value) (descending : Bool) (items : List Value)
        (r : Registry) (n : Nat) (env : Env) (call : Expr),
      kind.HasAll (items.map key) → (∃ v ∈ items.map key, v ≠ .null) →
      r.SelectorCall n env (extremeName descending) items key call →
        ∃ best, (r.eval (n + 1) call).run env = (.ok best, env) ∧
          ∀ v ∈ items.map key, v ≠ .null →
            best ≠ .null ∧ v.goesBefore descending best = false) ∧
    ¬ ∀ (kind : KeyKind) (key : Value → Value) (descending : Bool) (items items' : List Value)
        (r : Registry) (n : Nat) (env : Env) (call call' : Expr),
      kind.HasAll (items.map key) → (∃ v ∈ items.map key, v ≠ .null) → items'.Perm items →
      r.SelectorCall n env (extremeName descending) items key call →
      r.SelectorCall n env (extremeName descending) items' key call' →
        ∃ best best', (r.eval (n + 1) call).run env = (.ok best, env) ∧
          (r.eval (n + 1) call').run env = (.ok best', env) ∧ (best == best') = true := by
  constructor
  · intro h
    obtain ⟨best, hrun, hbest⟩ := h .integer id true [.null, .int 3] {} 1 .empty _
      hasAll_unknown_first ⟨.int 3, by simp, nofun⟩
      (call_selects {} 0 .empty (m := extremeMethod true) _ rfl)
    cases hrun
    exact (hbest (.int 3) (by simp) nofun).1 rfl
  · intro h
    obtain ⟨best, best', hrun, hrun', hequal⟩ := h .integer id true [.int 3, .null]
      [.null, .int 3] {} 1 .empty _ _ hasAll_known_first ⟨.int 3, by simp, nofun⟩ (.swap _ _ _)
      (call_selects {} 0 .empty (m := extremeMethod true) _ rfl)
      (call_selects {} 0 .empty (m := extremeMethod true) _ rfl)
    cases hrun
    cases hrun'
    cases hequal

end Registry

end Recast
