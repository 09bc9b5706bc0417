import Recast.Proofs.Closure
import Recast.Proofs.Resolution

/-! # A table that others have filled before

Registrations are the same over a table of their own and over one that holds the entries
of others already (`TypeTable.Merges`), as long as these agree with what is registered:
a pair that the others have registered is passed over, and what it implies they have
registered too; one that cannot be taken apart they have not (`Configuration.Drains.merged`).  Types are looked up with the same result
if the others registered none of those that were found without an entry, or with what they
stood for (`TypeTable.Merges.dataType`).
-/

namespace Recast

/-! ## §1  Merged tables -/

namespace TypeTable

/-- The entries of a table, and those of others for the types it has none for. -/
def Merges (others own both : TypeTable) : Prop :=
  ∀ k, both.get? k = (own.get? k).or (others.get? k)

/-- No type has different data types in the two tables. -/
def Agrees (own others : TypeTable) : Prop :=
  ∀ k d d', own.get? k = some d → others.get? k = some d' → d = d'

variable {others own both : TypeTable} {k d : Ty}

theorem merges_empty (others : TypeTable) : Merges others {} others := fun _ => rfl

theorem Merges.get?_own (h : Merges others own both) (hk : own.get? k = some d) :
    both.get? k = some d := by
  rw [h k, hk, Option.some_or]

theorem Merges.get?_others (h : Merges others own both) (hk : own.get? k = none) :
    both.get? k = others.get? k := by
  rw [h k, hk, Option.none_or]

theorem Merges.contains_eq (h : Merges others own both) :
    both.contains k = (own.contains k || others.contains k) := by
  rw [TypeTable.contains_eq, TypeTable.contains_eq, TypeTable.contains_eq, h k, Option.isSome_or]

/-- An entry that is new to both. -/
theorem Merges.add (h : Merges others own both) (hk : both.contains k = false) :
    Merges others (own.add k d) (both.add k d) := by
  intro k'
  rw [get?_add, get?_add, h k']
  by_cases hsame : k = k'
  · subst hsame
    have hothers : others.get? k = none := by
      rw [h.contains_eq, Bool.or_eq_false_iff] at hk
      exact get?_eq_none_iff.mpr hk.2
    rw [hothers, Option.or_none, Option.or_none]
  · rw [if_neg hsame, Option.or_none, Option.or_none]

/-- An entry that the others have. -/
theorem Merges.add_own (h : Merges others own both) (hk : own.contains k = false)
    (hothers : others.get? k = some d) : Merges others (own.add k d) both := by
  intro k'
  rw [get?_add, h k']
  by_cases hsame : k = k'
  · subst hsame
    rw [get?_eq_none_iff.mpr hk, if_pos rfl, hothers]
    rfl
  · rw [if_neg hsame, Option.or_none]

end TypeTable

/-! ## §2  Registration -/

namespace Configuration

variable {c : Configuration} {others own both : TypeTable} {p : Ty × Ty}

theorem Settled.of_own (h : c.Settled own p) (hboth : others.Merges own both) : c.Settled both p :=
  h.imp_right fun hk => by rw [hboth.contains_eq, hk, Bool.true_or]

theorem Settled.of_others (h : c.Settled others p) (hboth : others.Merges own both) :
    c.Settled both p :=
  h.imp_right fun hk => by rw [hboth.contains_eq, hk, Bool.or_true]

/-- Pending pairs without some that are settled. -/
inductive Thinned (c : Configuration) (t : TypeTable) : List (Ty × Ty) → List (Ty × Ty) → Prop where
  | nil : Thinned c t [] []
  | keep {p : Ty × Ty} {ps qs : List (Ty × Ty)} (rest : Thinned c t ps qs) :
      Thinned c t (p :: ps) (p :: qs)
  | drop {p : Ty × Ty} {ps qs : List (Ty × Ty)} (settled : c.Settled t p)
      (rest : Thinned c t ps qs) : Thinned c t (p :: ps) qs

section Thinned

variable {t t' : TypeTable} {ps qs more more' : List (Ty × Ty)}

theorem Thinned.refl (c : Configuration) (t : TypeTable) : ∀ ps, Thinned c t ps ps
  | [] => .nil
  | _ :: ps => .keep (refl c t ps)

theorem Thinned.mono (h : Thinned c t ps qs) (ht : t.entries <+: t'.entries) :
    Thinned c t' ps qs := by
  induction h with
  | nil => exact .nil
  | keep _ ih => exact .keep ih
  | drop settled _ ih => exact .drop (settled.mono ht) ih

theorem Thinned.append (h : Thinned c t ps qs) (h' : Thinned c t more more') :
    Thinned c t (ps ++ more) (qs ++ more') := by
  induction h with
  | nil => exact h'
  | keep _ ih => exact .keep ih
  | drop settled _ ih => exact .drop settled ih

theorem thinned_settled : ∀ {ps : List (Ty × Ty)}, (∀ p ∈ ps, c.Settled t p) → Thinned c t ps []
  | [], _ => .nil
  | p :: _, h => .drop (h p List.mem_cons_self)
      (thinned_settled fun q hq => h q (List.mem_cons_of_mem p hq))

end Thinned

/-- An entry of the others, and all that it implies is settled. -/
theorem Closed.implied (hclosed : c.Closed others) {k d : Ty} {pairs : List (Ty × Ty)}
    (hk : others.get? k = some d) (himplied : c.implied k d = .ok pairs) :
    ∀ q ∈ pairs, c.Settled others q := by
  obtain ⟨pairs', himplied', hsettled⟩ := hclosed (k, d) (TypeTable.mem_of_get? hk)
  obtain rfl := Except.ok.inj (himplied.symm.trans himplied')
  exact hsettled

/-- What the table of a registration and the table of the others have in common is not entered
again, and they agree on it. -/
theorem get?_others_of_settled (hboth : others.Merges own both) {final : TypeTable}
    (hagrees : final.Agrees others) (hfinal : (c.enter own p).entries <+: final.entries)
    (hnew : ¬ c.Settled own p) (hsettled : c.Settled both p) :
    others.get? (c.stripped p).1 = some (c.stripped p).2 := by
  have hk : both.contains (c.stripped p).1 = true :=
    hsettled.resolve_left fun hsame => hnew (.inl hsame)
  rw [hboth.contains_eq, contains_of_not_settled hnew, Bool.false_or] at hk
  obtain ⟨d, hd⟩ := TypeTable.contains_iff.mp hk
  rw [hd, hagrees _ _ _ (TypeTable.get?_mono hfinal (get?_enter hnew)) hd]

/-- The others have no pair that cannot be taken apart. -/
theorem not_settled_of_fails (hclosed : c.Closed others) (hboth : others.Merges own both)
    {final : TypeTable} (hagrees : final.Agrees others)
    (hfinal : (c.enter own p).entries <+: final.entries) (hnew : ¬ c.Settled own p)
    {e : MappingError} (hfails : c.implied (c.stripped p).1 (c.stripped p).2 = .error e) :
    ¬ c.Settled both p := by
  intro hsettled
  have hothers := get?_others_of_settled hboth hagrees hfinal hnew hsettled
  obtain ⟨_, himplied, -⟩ := hclosed _ (TypeTable.mem_of_get? hothers)
  cases hfails.symm.trans himplied

/-- Pending pairs that are worked off over a table of their own are worked off over the merged
one, where some of them may be passed over, and if one fails then it fails there too. -/
theorem Drains.merged {final own' : TypeTable} {result : Checked Unit}
    (hclosed : c.Closed others) (hagrees : final.Agrees others) {ps : List (Ty × Ty)}
    (h : c.Drains ps own result own') :
    ∀ {qs : List (Ty × Ty)} {both : TypeTable},
      own'.entries <+: final.entries → others.Merges own both → Thinned c both ps qs →
        ∃ both', c.Drains qs both result both' ∧ others.Merges own' both' := by
  induction h with
  | done t =>
      intro qs both _ hboth hthin
      cases hthin
      exact ⟨both, .done both, hboth⟩
  | skip settled _ ih =>
      intro qs both hfinal hboth hthin
      cases hthin with
      | keep rest =>
          obtain ⟨both', hdrains, hboth'⟩ := ih hfinal hboth rest
          exact ⟨both', .skip (settled.of_own hboth) hdrains, hboth'⟩
      | drop _ rest => exact ih hfinal hboth rest
  | @add p ps pairs _ t _ new implied rest ih =>
      intro qs both hfinal hboth hthin
      -- The others have the pair, so what it implies is settled over the merged table.
      have hknown : c.Settled both p → others.Merges (c.enter t p) both ∧ Thinned c both pairs [] := by
        intro hsettled
        have hothers := get?_others_of_settled hboth hagrees (rest.grows.entries.trans hfinal)
          new hsettled
        exact ⟨hboth.add_own (contains_of_not_settled new) hothers,
          thinned_settled fun q hq => (hclosed.implied hothers implied q hq).of_others hboth⟩
      cases hthin with
      | drop settled hps =>
          obtain ⟨hboth', hpairs⟩ := hknown settled
          have hthin := hps.append hpairs
          rw [List.append_nil] at hthin
          exact ih hfinal hboth' hthin
      | @keep _ _ qs hps =>
          by_cases hsettled : c.Settled both p
          · -- The merged run passes over the pair, and all that it implies drops out.
            obtain ⟨hboth', hpairs⟩ := hknown hsettled
            have hthin := hps.append hpairs
            rw [List.append_nil] at hthin
            obtain ⟨both', hdrains, hboth'⟩ := ih hfinal hboth' hthin
            exact ⟨both', .skip hsettled hdrains, hboth'⟩
          · have hboth' : others.Merges (c.enter t p) (c.enter both p) :=
              hboth.add (contains_of_not_settled hsettled)
            have hthin := (hps.mono (grows_enter hsettled).entries).append (.refl c _ pairs)
            obtain ⟨both', hdrains, hboth'⟩ := ih hfinal hboth' hthin
            exact ⟨both', .add hsettled implied hdrains, hboth'⟩
  | fail new implied =>
      intro qs both hfinal hboth hthin
      have hnew := not_settled_of_fails hclosed hboth hagrees hfinal new implied
      cases hthin with
      | drop settled _ => exact absurd settled hnew
      | keep _ => exact ⟨_, .fail hnew implied, hboth.add (contains_of_not_settled hnew)⟩

end Configuration

/-! ## §3  Look-ups -/

namespace TypeTable

variable {others own both : TypeTable} {r : Registry}

theorem resolutionsWithin_mono : ∀ {n n' : Nat} (model : Ty), n ≤ n' →
    own.resolutionsWithin r n model ⊆ own.resolutionsWithin r n' model
  | 0, _, _, _ => List.nil_subset _
  | n + 1, n' + 1, model, h => by
      rw [resolutionsWithin, resolutionsWithin]
      split
      · exact List.Subset.refl _
      · intro p hp
        rcases List.mem_cons.mp hp with rfl | hp
        · exact List.mem_cons_self
        · obtain ⟨u, hu, hp⟩ := List.mem_flatMap.mp hp
          refine List.mem_cons_of_mem _ (List.mem_flatMap.mpr ⟨u, hu, ?_⟩)
          exact resolutionsWithin_mono u (Nat.le_of_succ_le_succ h) hp

theorem mem_resolutions_self {model : Ty} (h : own.get? model = none) :
    (model, own.dataType r model) ∈ own.resolutions r model := by
  rw [resolutions, resolutionsWithin, if_neg]
  · exact List.mem_cons_self
  · rw [get?_eq_none_iff.mp h]
    exact Bool.false_ne_true

theorem resolutions_subset_of_arg {model u : Ty} (h : own.get? model = none)
    (hu : u ∈ r.tyArgs model) : own.resolutions r u ⊆ own.resolutions r model := by
  intro p hp
  rw [resolutions, resolutionsWithin, if_neg]
  · refine List.mem_cons_of_mem _ (List.mem_flatMap.mpr ⟨u, hu, ?_⟩)
    exact resolutionsWithin_mono u (Registry.size_lt_of_mem_tyArgs hu) hp
  · rw [get?_eq_none_iff.mp h]
    exact Bool.false_ne_true

/-- Others registered a type that had no entry, if at all, with what it stood for. -/
def Foreseen (others : TypeTable) (resolved : List (Ty × Ty)) : Prop :=
  ∀ p ∈ resolved, ∀ d, others.get? p.1 = some d → d = p.2

/-- A type stands for the same over the merged table. -/
theorem Merges.dataType (hboth : Merges others own both) (model : Ty)
    (hforeseen : others.Foreseen (own.resolutions r model)) :
    both.dataType r model = own.dataType r model := by
  cases hown : own.get? model with
  | some d => rw [dataType_of_get? own r hown, dataType_of_get? both r (hboth.get?_own hown)]
  | none =>
      cases hothers : others.get? model with
      | some d =>
          rw [dataType_of_get? both r ((hboth.get?_others hown).trans hothers)]
          exact hforeseen _ (mem_resolutions_self hown) d hothers
      | none =>
          rw [dataType_of_none own r hown,
            dataType_of_none both r ((hboth.get?_others hown).trans hothers)]
          refine congrArg (rebuilt r model) (List.map_congr_left fun u hu => ?_)
          have hsize := Registry.size_lt_of_mem_tyArgs hu
          exact Merges.dataType hboth u fun p hp =>
            hforeseen p (resolutions_subset_of_arg hown hu hp)
termination_by model.size

end TypeTable

end Recast
