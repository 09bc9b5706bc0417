import Recast.Proofs.Closure

/-! # Registrations that fail

A pair cannot be taken apart if its model type is a delegate and its data type is none,
or one with another number of parameters.  By then it has been entered, and so have the
pairs that led to it: a table is only ever added to.

- `Configuration.Misfit` — the pairs that cannot be taken apart, with the error for each.
- `Configuration.Unfolds` — entries in the order in which they are found.
- `Configuration.relate_failed` — what a failed registration leaves behind.  To repeat it
  changes nothing, and is no failure any more.
-/

namespace Recast

namespace Configuration

variable (c : Configuration)

/-! ## §1  Pairs that cannot be taken apart -/

inductive Misfit (model data : Ty) : MappingError → Prop where
  | noDelegate {params : List Ty} {ret : Ty}
      (hmodel : c.types.signature? model = some (params, ret))
      (hdata : c.types.signature? data = none) :
      Misfit model data (.invalidArgument (c.types.tyText model ++ " is a delegate type but " ++
        c.types.tyText data ++ " is not"))
  | arity {params dataParams : List Ty} {ret dataRet : Ty}
      (hmodel : c.types.signature? model = some (params, ret))
      (hdata : c.types.signature? data = some (dataParams, dataRet))
      (hlength : params.length ≠ dataParams.length) :
      Misfit model data (.argumentCountMismatch (c.types.tyText model) (c.types.tyText data)
        params.length dataParams.length)

variable {c} {model data : Ty} {e : MappingError}

theorem misfit_iff : c.Misfit model data e ↔ c.implied model data = .error e := by
  constructor
  · intro h
    cases h with
    | noDelegate hmodel hdata => simp [implied, hmodel, hdata]
    | arity hmodel hdata hlength => simp [implied, hmodel, hdata, hlength]
  · intro h
    unfold implied at h
    split at h
    · rename_i params ret hmodel
      split at h
      · rename_i hdata
        cases h
        exact .noDelegate hmodel hdata
      · rename_i dataParams dataRet hdata
        split at h
        · cases h
        · rename_i hlength
          cases h
          exact .arity hmodel hdata hlength
    · -- Without a delegate there is always an answer.
      repeat' split at h
      all_goals cases h

/-! ## §2  What is found before the failure -/

/-- The entry for the given pair, and behind it entries for pairs that an earlier one implies. -/
inductive Unfolds (c : Configuration) (given : Ty × Ty) : List (Ty × Ty) → Prop where
  | given : Unfolds c given [c.stripped given]
  | implied {found : List (Ty × Ty)} {q p : Ty × Ty} (before : Unfolds c given found)
      (hq : q ∈ found) (hp : c.Follows q.1 q.2 p) : Unfolds c given (found ++ [c.stripped p])

variable {t t' : TypeTable} {pending : List (Ty × Ty)} {outcome : Checked Unit}

/-- The table has these entries more, and the last of them is the only one that cannot be taken
apart. -/
structure FailsAt (c : Configuration) (e : MappingError) (t t' : TypeTable)
    (added : List (Ty × Ty)) (fault : Ty × Ty) : Prop where
  entries : t'.entries = t.entries ++ (added ++ [fault])
  sound : ∀ p ∈ added, ∃ pairs, c.implied p.1 p.2 = .ok pairs
  misfit : c.Misfit fault.1 fault.2 e

theorem failsAt_enter {p : Ty × Ty} (h : c.implied (c.stripped p).1 (c.stripped p).2 = .error e) :
    c.FailsAt e t (c.enter t p) [] (c.stripped p) where
  entries := rfl
  sound x hx := by cases hx
  misfit := misfit_iff.mpr h

theorem FailsAt.enter {p fault : Ty × Ty} {added pairs : List (Ty × Ty)}
    (h : c.FailsAt e (c.enter t p) t' added fault)
    (hp : c.implied (c.stripped p).1 (c.stripped p).2 = .ok pairs) :
    c.FailsAt e t t' (c.stripped p :: added) fault where
  entries := by simp [h.entries, Configuration.enter, TypeTable.add]
  sound x hx := by
    rcases List.mem_cons.mp hx with rfl | hx
    · exact ⟨pairs, hp⟩
    · exact h.sound x hx
  misfit := h.misfit

/-- By induction on the process: pending pairs are implied by the entries found so far. -/
theorem Drains.failsAt {given : Ty × Ty} (h : c.Drains pending t outcome t')
    (hfails : outcome = .error e) :
    ∀ {found : List (Ty × Ty)}, c.Unfolds given found →
      (∀ p ∈ pending, ∃ q ∈ found, c.Follows q.1 q.2 p) →
        ∃ added fault, c.FailsAt e t t' added fault ∧
          c.Unfolds given (found ++ (added ++ [fault])) := by
  induction h with
  | done => cases hfails
  | skip _ _ ih =>
      exact fun hfound hpending => ih hfails hfound fun p hp =>
        hpending p (List.mem_cons_of_mem _ hp)
  | @add p pending pairs _ t _ _ implied _ ih =>
      intro found hfound hpending
      obtain ⟨q, hq, hp⟩ := hpending p List.mem_cons_self
      have hnext : ∀ x ∈ pending ++ pairs,
          ∃ q ∈ found ++ [c.stripped p], c.Follows q.1 q.2 x := by
        intro x hx
        rcases List.mem_append.mp hx with hx | hx
        · obtain ⟨q, hq, hx⟩ := hpending x (List.mem_cons_of_mem _ hx)
          exact ⟨q, List.mem_append_left _ hq, hx⟩
        · exact ⟨c.stripped p, List.mem_append_right _ List.mem_cons_self,
            (mem_implied implied).mp hx⟩
      obtain ⟨added, fault, hat, hunfolds⟩ := ih hfails (hfound.implied hq hp) hnext
      exact ⟨c.stripped p :: added, fault, hat.enter implied, by simpa using hunfolds⟩
  | @fail p pending _ t _ implied =>
      intro found hfound hpending
      cases hfails
      obtain ⟨q, hq, hp⟩ := hpending p List.mem_cons_self
      exact ⟨[], c.stripped p, failsAt_enter implied, hfound.implied hq hp⟩

/-- A registered model type is not looked at again. -/
theorem run_relate_registered (h : t.contains (c.types.stripExpression model) = true) :
    (c.relate model data).run t = (.ok (), t) :=
  returns_relate_iff.mpr (.skip (.inr h) (.done t))

/-- A failed registration leaves all entries that it found behind those that were there: first the
given pair, last the one at fault.  So to repeat it changes nothing, and does not fail. -/
theorem relate_failed (h : (c.relate model data).run t = (.error e, t')) :
    (∃ added fault, c.FailsAt e t t' added fault ∧
      c.Unfolds (model, data) (added ++ [fault])) ∧
    (c.relate model data).run t' = (.ok (), t') := by
  have hdrains := c.drains_relate model data t
  rw [h] at hdrains
  cases hdrains with
  | skip _ rest => cases rest
  | add new implied rest =>
      have hpairs : ∀ p ∈ [] ++ _, ∃ q ∈ [c.stripped (model, data)], c.Follows q.1 q.2 p :=
        fun p hp => ⟨_, List.mem_cons_self, (mem_implied implied).mp hp⟩
      obtain ⟨added, fault, hat, hunfolds⟩ := rest.failsAt rfl .given hpairs
      refine ⟨⟨_, fault, hat.enter implied, hunfolds⟩, ?_⟩
      have hkey := TypeTable.get?_mono rest.grows.entries (get?_enter new)
      exact run_relate_registered (TypeTable.contains_of_get? hkey)
  | fail new implied =>
      refine ⟨⟨[], _, failsAt_enter implied, .given⟩, ?_⟩
      exact run_relate_registered (TypeTable.contains_of_get? (get?_enter new))

/-! ### A check with one parameter more -/

namespace Forms

def order : Ty := .declared 0

def orderModel : Ty := .declared 1

def form : Ty := .declared 2

def formModel : Ty := .declared 3

def check : Ty := .func [order, .int32] .boolean

def checkModel : Ty := .func [orderModel] .boolean

def registry : Registry :=
  { declarations := [.record "Order" none [], .record "OrderModel" none [],
      .record "Form" none [⟨"Check", check⟩], .record "FormModel" none [⟨"Check", checkModel⟩]] }

def config : Configuration :=
  { types := registry,
    maps := [{
      source := form
      destination := formModel
      rules := [{ member := ⟨"Check", checkModel⟩, source := [⟨"Check", check⟩] }] }] }

def mismatch : MappingError :=
  .argumentCountMismatch "Func<OrderModel, Boolean>" "Func<Order, Int32, Boolean>" 1 2

/-- What is left of the attempt to register the forms. -/
def leftover : TypeTable := ⟨[(formModel, form), (checkModel, check)]⟩

end Forms

open Forms in
/-- The fault is found in a member, after the entry for the forms. -/
theorem relate_failed_forms :
    (config.relate formModel form).run {} = (.error mismatch, leftover) ∧
      (∃ added fault, config.FailsAt mismatch {} leftover added fault ∧
        config.Unfolds (formModel, form) (added ++ [fault])) ∧
      (config.relate formModel form).run leftover = (.ok (), leftover) := by
  have hrun : (config.relate formModel form).run {} = (.error mismatch, leftover) := rfl
  exact ⟨hrun, relate_failed hrun⟩

open Forms in
/-- What was registered before a failure is not taken back, and a second attempt does not report
the failure again. -/
theorem relate_undoes_fails :
    (¬ ∀ (c : Configuration) (model data : Ty) (e : MappingError) (t t' : TypeTable),
      (c.relate model data).run t = (.error e, t') → t' = t) ∧
    ¬ ∀ (c : Configuration) (model data : Ty) (e : MappingError) (t t' : TypeTable),
      (c.relate model data).run t = (.error e, t') →
        ((c.relate model data).run t').1 = .error e := by
  have hrun : (config.relate formModel form).run {} = (.error mismatch, leftover) := rfl
  constructor
  · intro h
    cases congrArg TypeTable.entries (h _ _ _ _ _ _ hrun)
  · intro h
    have hagain := h _ _ _ _ _ _ hrun
    have hsecond : (config.relate formModel form).run leftover = (.ok (), leftover) := rfl
    rw [hsecond] at hagain
    cases hagain

end Configuration

end Recast
