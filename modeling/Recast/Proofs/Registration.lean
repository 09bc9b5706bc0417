import Recast.Proofs.Coherence
import Recast.Proofs.Run

/-! # Registration of correspondences

A correspondence is registered with everything it implies: the pending pairs are
worked off one after the other, and what a new entry implies is put behind them.
`Configuration.Drains` describes this process, which stops when nothing is pending
or where a pair cannot be taken apart.

The number of steps that `drain` may take is bounded by the types that can be met.
Within that bound the process always comes to its end, whatever refers to whatever
else in a circle, so registration is exactly this process
(`Configuration.drains_relate`).
-/

namespace Recast

/-! ## §1  Entries of a table -/

namespace TypeTable

variable {t t' t'' : TypeTable} {k d : Ty}

theorem contains_eq (t : TypeTable) (k : Ty) : t.contains k = (t.get? k).isSome := by
  unfold contains get?
  rw [Option.isSome_map, List.isSome_find?]

theorem get?_eq_none_iff : t.get? k = none ↔ t.contains k = false := by
  rw [contains_eq]
  cases t.get? k <;> simp

theorem contains_of_get? (h : t.get? k = some d) : t.contains k = true := by
  rw [contains_eq, h]
  rfl

theorem contains_iff : t.contains k = true ↔ ∃ d, t.get? k = some d := by
  rw [contains_eq, Option.isSome_iff_exists]

theorem mem_of_get? (h : t.get? k = some d) : (k, d) ∈ t.entries := by
  obtain ⟨p, hp, rfl⟩ := Option.map_eq_some_iff.mp h
  obtain rfl : p.1 = k := by simpa using List.find?_some hp
  exact List.mem_of_find?_eq_some hp

/-- An entry is added behind the others. -/
theorem get?_add (t : TypeTable) (k d k' : Ty) :
    (t.add k d).get? k' = (t.get? k').or (if k = k' then some d else none) := by
  unfold add get?
  rw [List.find?_append, Option.map_or]
  by_cases hk : k = k' <;> simp [hk]

theorem get?_add_self (h : t.contains k = false) : (t.add k d).get? k = some d := by
  rw [get?_add, get?_eq_none_iff.mpr h, Option.none_or, if_pos rfl]

theorem get?_mono (h : t.entries <+: t'.entries) (hk : t.get? k = some d) :
    t'.get? k = some d := by
  obtain ⟨more, hmore⟩ := h
  unfold get? at *
  rw [← hmore, List.find?_append, Option.map_or, hk, Option.some_or]

theorem contains_mono (h : t.entries <+: t'.entries) (hk : t.contains k = true) :
    t'.contains k = true := by
  obtain ⟨d, hd⟩ := contains_iff.mp hk
  exact contains_of_get? (get?_mono h hd)

theorem prefix_add (t : TypeTable) (k d : Ty) : t.entries <+: (t.add k d).entries :=
  List.prefix_append _ _

/-! ### First registrations -/

/-- Model types are unique, and no entry maps a type to itself. -/
structure WellFormed (t : TypeTable) : Prop where
  unique : (t.entries.map (·.1)).Nodup
  proper : ∀ p ∈ t.entries, p.1 ≠ p.2

theorem wellFormed_empty : WellFormed {} := ⟨List.nodup_nil, by simp⟩

theorem WellFormed.add (ht : t.WellFormed) (hk : t.contains k = false) (hd : k ≠ d) :
    (t.add k d).WellFormed where
  unique := by
    have hnew : ∀ p ∈ t.entries, p.1 ≠ k := by simpa [contains] using hk
    simp only [TypeTable.add, List.map_append, List.map_cons, List.map_nil, List.nodup_append]
    refine ⟨ht.unique, by simp, fun a ha b hb => ?_⟩
    obtain ⟨p, hp, rfl⟩ := List.mem_map.mp ha
    rw [List.mem_singleton.mp hb]
    exact hnew p hp
  proper p hp := by
    rcases List.mem_append.mp hp with hp | hp
    · exact ht.proper p hp
    · rw [List.mem_singleton.mp hp]
      exact hd

/-- The entries stay in their places, and a well-formed table stays one. -/
structure Grows (t t' : TypeTable) : Prop where
  entries : t.entries <+: t'.entries
  wellFormed : t.WellFormed → t'.WellFormed

theorem Grows.refl (t : TypeTable) : Grows t t := ⟨List.prefix_refl _, id⟩

theorem Grows.trans (h : Grows t t') (h' : Grows t' t'') : Grows t t'' :=
  ⟨h.entries.trans h'.entries, fun ht => h'.wellFormed (h.wellFormed ht)⟩

theorem grows_add (hk : t.contains k = false) (hd : k ≠ d) : Grows t (t.add k d) :=
  ⟨prefix_add t k d, fun ht => ht.add hk hd⟩

end TypeTable

/-! ## §2  Working off pending pairs -/

namespace Configuration

variable (c : Configuration)

/-- The pair without `Expression<>` around its sides. -/
def stripped (p : Ty × Ty) : Ty × Ty := (c.types.stripExpression p.1, c.types.stripExpression p.2)

/-- Apart from `Expression<>`, the sides are equal or the model side is registered. -/
def Settled (t : TypeTable) (p : Ty × Ty) : Prop :=
  (c.stripped p).1 = (c.stripped p).2 ∨ t.contains (c.stripped p).1 = true

instance (t : TypeTable) (p : Ty × Ty) : Decidable (c.Settled t p) :=
  inferInstanceAs (Decidable (_ ∨ _))

/-- The table with a pair as its last entry. -/
def enter (t : TypeTable) (p : Ty × Ty) : TypeTable := t.add (c.stripped p).1 (c.stripped p).2

/-- The pending pairs are worked off until none is left or one fails, and the table grows from
the first to the second. -/
inductive Drains : List (Ty × Ty) → TypeTable → Checked Unit → TypeTable → Prop where
  | done (t : TypeTable) : Drains [] t (.ok ()) t
  | skip {p : Ty × Ty} {pending : List (Ty × Ty)} {result : Checked Unit} {t t' : TypeTable}
      (settled : c.Settled t p) (rest : Drains pending t result t') :
      Drains (p :: pending) t result t'
  | add {p : Ty × Ty} {pending pairs : List (Ty × Ty)} {result : Checked Unit}
      {t t' : TypeTable} (new : ¬ c.Settled t p)
      (implied : c.implied (c.stripped p).1 (c.stripped p).2 = .ok pairs)
      (rest : Drains (pending ++ pairs) (c.enter t p) result t') :
      Drains (p :: pending) t result t'
  | fail {p : Ty × Ty} {pending : List (Ty × Ty)} {e : MappingError} {t : TypeTable}
      (new : ¬ c.Settled t p)
      (implied : c.implied (c.stripped p).1 (c.stripped p).2 = .error e) :
      Drains (p :: pending) t (.error e) (c.enter t p)

variable {c} {t t' : TypeTable} {p : Ty × Ty} {pending : List (Ty × Ty)} {result : Checked Unit}

theorem Settled.mono (h : c.Settled t p) (ht : t.entries <+: t'.entries) : c.Settled t' p :=
  h.imp_right (TypeTable.contains_mono ht)

theorem contains_of_not_settled (h : ¬ c.Settled t p) : t.contains (c.stripped p).1 = false := by
  rw [← Bool.not_eq_true]
  exact fun hk => h (.inr hk)

theorem get?_enter (h : ¬ c.Settled t p) :
    (c.enter t p).get? (c.stripped p).1 = some (c.stripped p).2 :=
  TypeTable.get?_add_self (contains_of_not_settled h)

theorem grows_enter (h : ¬ c.Settled t p) : t.Grows (c.enter t p) :=
  TypeTable.grows_add (contains_of_not_settled h) fun hsame => h (.inl hsame)

theorem Drains.grows (h : c.Drains pending t result t') : t.Grows t' := by
  induction h with
  | done t => exact .refl t
  | skip _ _ ih => exact ih
  | add new _ _ ih => exact (grows_enter new).trans ih
  | fail new _ => exact grows_enter new

/-- The process has one course. -/
theorem Drains.unique {result' : Checked Unit} {t'' : TypeTable}
    (h : c.Drains pending t result t') (h' : c.Drains pending t result' t'') :
    result = result' ∧ t' = t'' := by
  induction h with
  | done t =>
      cases h'
      exact ⟨rfl, rfl⟩
  | skip settled _ ih =>
      cases h' with
      | skip _ rest => exact ih rest
      | add new _ _ => exact absurd settled new
      | fail new _ => exact absurd settled new
  | add new implied _ ih =>
      cases h' with
      | skip settled _ => exact absurd settled new
      | add _ implied' rest =>
          obtain rfl := Except.ok.inj (implied.symm.trans implied')
          exact ih rest
      | fail _ implied' => cases implied.symm.trans implied'
  | fail new implied =>
      cases h' with
      | skip settled _ => exact absurd settled new
      | add _ implied' _ => cases implied.symm.trans implied'
      | fail _ implied' =>
          obtain rfl := Except.error.inj (implied.symm.trans implied')
          exact ⟨rfl, rfl⟩

/-! ### Steps of `drain` -/

theorem settled_iff : c.Settled t p ↔
    (decide (c.types.stripExpression p.1 = c.types.stripExpression p.2) ||
      t.contains (c.types.stripExpression p.1)) = true := by
  simp [Settled, stripped]

theorem run_drain_nil (n : Nat) (t : TypeTable) : (c.drain n []).run t = (.ok (), t) := by
  cases n <;> rfl

theorem run_drain_skip {n : Nat} (h : c.Settled t p) :
    (c.drain (n + 1) (p :: pending)).run t = (c.drain n pending).run t := by
  show (ite _ _ _ : TableM Unit).run t = _
  rw [if_pos (settled_iff.mp h)]

theorem run_drain_add {n : Nat} (h : ¬ c.Settled t p) :
    (c.drain (n + 1) (p :: pending)).run t =
      match c.implied (c.stripped p).1 (c.stripped p).2 with
      | .ok pairs => (c.drain n (pending ++ pairs)).run (c.enter t p)
      | .error e => (.error e, c.enter t p) := by
  show (ite _ _ _ : TableM Unit).run t = _
  rw [if_neg fun hs => h (settled_iff.mpr hs), run_bind]
  simp only [stripped]
  cases c.implied (c.types.stripExpression p.1) (c.types.stripExpression p.2) <;> rfl

/-! ### Enough steps -/

/-- Whatever an entry for one of the types implies is again for one of the types, and is at most
so many pairs. -/
def ClosedUnder (c : Configuration) (types : List Ty) (most : Nat) : Prop :=
  ∀ k ∈ types, ∀ d pairs, c.implied k d = .ok pairs →
    pairs.length ≤ most ∧ ∀ p ∈ pairs, (c.stripped p).1 ∈ types

/-- How many of the types have no entry. -/
def unregistered (t : TypeTable) (types : List Ty) : Nat := types.countP fun k => !t.contains k

theorem unregistered_add_lt {k d : Ty} (ht : t.contains k = false) :
    ∀ {types : List Ty}, k ∈ types → unregistered (t.add k d) types < unregistered t types
  | x :: types, hk => by
      have hmono : ∀ x, (!(t.add k d).contains x) = true → (!t.contains x) = true := by
        intro x hx
        rw [Bool.not_eq_true'] at hx ⊢
        rw [← Bool.not_eq_true] at hx ⊢
        exact fun h => hx (TypeTable.contains_mono (TypeTable.prefix_add t k d) h)
      unfold unregistered
      rw [List.countP_cons, List.countP_cons]
      rcases List.mem_cons.mp hk with rfl | hk
      · have hadded : (t.add k d).contains k = true :=
          TypeTable.contains_of_get? (TypeTable.get?_add_self ht)
        have hrest := List.countP_mono_left fun x (_ : x ∈ types) => hmono x
        simp only [ht, hadded, Bool.not_true, Bool.not_false, if_true, Bool.false_eq_true,
          if_false]
        omega
      · have hrest := unregistered_add_lt (d := d) ht hk
        unfold unregistered at hrest
        by_cases hx : (!(t.add k d).contains x) = true
        · rw [if_pos hx, if_pos (hmono x hx)]
          omega
        · rw [if_neg hx]
          omega

/-- Every step takes a pair away or registers one more type, which brings back at most `most`
pairs; so as many steps as this come to the end of the process. -/
theorem drains_drain {types : List Ty} {most : Nat} (hclosed : c.ClosedUnder types most) :
    ∀ {n : Nat} {pending : List (Ty × Ty)} {t : TypeTable},
      (∀ p ∈ pending, (c.stripped p).1 ∈ types) →
      pending.length + most * unregistered t types ≤ n →
      c.Drains pending t ((c.drain n pending).run t).1 ((c.drain n pending).run t).2
  | n, [], t, _, _ => by
      rw [run_drain_nil]
      exact .done t
  | 0, p :: pending, t, _, hn => by
      rw [List.length_cons] at hn
      omega
  | n + 1, p :: pending, t, hmem, hn => by
      have hpending := fun q hq => hmem q (List.mem_cons_of_mem p hq)
      rw [List.length_cons] at hn
      by_cases hp : c.Settled t p
      · rw [run_drain_skip hp]
        exact .skip hp (drains_drain hclosed hpending (by omega))
      · rw [run_drain_add hp]
        have hk := hmem p List.mem_cons_self
        have hless : unregistered (c.enter t p) types < unregistered t types :=
          unregistered_add_lt (contains_of_not_settled hp) hk
        cases himplied : c.implied (c.stripped p).1 (c.stripped p).2 with
        | error e => exact .fail hp himplied
        | ok pairs =>
            obtain ⟨hlength, hpairs⟩ := hclosed _ hk _ _ himplied
            refine .add hp himplied (drains_drain hclosed (fun q hq => ?_) ?_)
            · exact (List.mem_append.mp hq).elim (hpending q) (hpairs q)
            · -- The type that is registered pays for the pairs its entry brings.
              have hbound := Nat.mul_le_mul_left most hless
              rw [Nat.mul_succ] at hbound
              rw [List.length_append]
              omega

end Configuration

/-! ## §3  The types that can be met -/

/-! ### Sums of sizes -/

theorem total_append : ∀ xs ys : List Nat, total (xs ++ ys) = total xs + total ys
  | [], ys => (Nat.zero_add _).symm
  | x :: xs, ys => by rw [List.cons_append, total, total, total_append xs, Nat.add_assoc]

theorem le_total {n : Nat} : ∀ {ns : List Nat}, n ∈ ns → n ≤ total ns
  | x :: xs, h => by
      rw [total]
      rcases List.mem_cons.mp h with rfl | h
      · exact Nat.le_add_right _ _
      · exact Nat.le_trans (le_total h) (Nat.le_add_left _ _)

theorem length_flatMap_le {α β : Type} {f : α → List β} {g : α → Nat} :
    ∀ {xs : List α}, (∀ x ∈ xs, (f x).length ≤ g x) → (xs.flatMap f).length ≤ total (xs.map g)
  | [], _ => Nat.le_refl _
  | x :: xs, h => by
      rw [List.flatMap_cons, List.length_append, List.map_cons, total]
      exact Nat.add_le_add (h x List.mem_cons_self)
        (length_flatMap_le fun y hy => h y (List.mem_cons_of_mem x hy))

theorem length_flatMap_le_mul {α β : Type} {f : α → List β} {most : Nat} :
    ∀ {xs : List α}, (∀ x ∈ xs, (f x).length ≤ most) → (xs.flatMap f).length ≤ most * xs.length
  | [], _ => Nat.zero_le _
  | x :: xs, h => by
      rw [List.flatMap_cons, List.length_append, List.length_cons, Nat.mul_succ, Nat.add_comm]
      exact Nat.add_le_add (length_flatMap_le_mul fun y hy => h y (List.mem_cons_of_mem x hy))
        (h x List.mem_cons_self)

theorem total_map_succ {α : Type} (f : α → Nat) : ∀ xs : List α,
    total (xs.map fun x => f x + 1) = total (xs.map f) + xs.length
  | [] => rfl
  | x :: xs => by
      have hxs := total_map_succ f xs
      rw [List.map_cons, List.map_cons, total, total, hxs, List.length_cons]
      omega

theorem total_map_two_mul {α : Type} (f : α → Nat) : ∀ xs : List α,
    total (xs.map fun x => 2 * f x) = 2 * total (xs.map f)
  | [] => rfl
  | x :: xs => by
      rw [List.map_cons, List.map_cons, total, total, total_map_two_mul f xs, Nat.mul_add]

namespace Ty

theorem sizeAll_eq : ∀ ts : List Ty, sizeAll ts = total (ts.map size)
  | [] => rfl
  | t :: ts => by rw [sizeAll, sizeAll_eq ts, List.map_cons, total]

theorem sizeMembers_eq : ∀ ms : List Member, sizeMembers ms = total ((ms.map (·.ty)).map size)
  | [] => rfl
  | ⟨_, t⟩ :: ms => by rw [sizeMembers, sizeMembers_eq ms, List.map_cons, List.map_cons, total]

theorem size_pos (t : Ty) : 0 < t.size := by cases t <;> simp [size]

theorem length_le_total_size (ts : List Ty) : ts.length ≤ total (ts.map size) := by
  induction ts with
  | nil => exact Nat.le_refl _
  | cons t ts ih =>
      have ht := size_pos t
      rw [List.length_cons, List.map_cons, total]
      omega

end Ty

namespace Registry

variable {r : Registry} {t u : Ty}

/-- The arguments of a type are parts of it that lie apart. -/
theorem total_tyArgs_lt (r : Registry) (t : Ty) : total ((r.tyArgs t).map Ty.size) < t.size := by
  cases t with
  | inst generic args => simp [tyArgs, Ty.size, Ty.sizeAll_eq]
  | func ps ret =>
      by_cases hr : r.isRedefined (.func ps ret) = true
      · simp [tyArgs, hr, total, Ty.size]
      · simp [tyArgs, hr, Ty.size, Ty.sizeAll_eq, total_append, total]
  | anonymous ms =>
      by_cases hr : r.isRedefined (.anonymous ms) = true
      · simp [tyArgs, hr, total, Ty.size]
      · simp only [tyArgs, hr, Bool.false_eq_true, if_false, Ty.size, Ty.sizeMembers_eq]
        omega
  | dictionary k v | keyValue k v => grind [tyArgs, total, Ty.size]
  | _ => grind [tyArgs, total, Ty.size]

theorem size_lt_of_mem_tyArgs (h : u ∈ r.tyArgs t) : u.size < t.size :=
  Nat.lt_of_le_of_lt (le_total (List.mem_map_of_mem h)) (r.total_tyArgs_lt t)

/-! ### Parts -/

theorem mem_partsWithin_self (r : Registry) (n : Nat) (t : Ty) : t ∈ r.partsWithin n t := by
  cases n <;> simp [partsWithin]

theorem mem_reach_self (r : Registry) (t : Ty) : t ∈ r.reach t := r.mem_partsWithin_self _ t

theorem mem_partsWithin_tyArgs {x : Ty} (hu : u ∈ r.tyArgs x) : ∀ {n : Nat} {t : Ty},
    t.size ≤ n → x ∈ r.partsWithin n t → u ∈ r.partsWithin n t
  | 0, t, hn, _ => by
      have ht := t.size_pos
      omega
  | n + 1, t, hn, hx => by
      rw [partsWithin] at hx ⊢
      refine List.mem_cons_of_mem _ (List.mem_flatMap.mpr ?_)
      rcases List.mem_cons.mp hx with rfl | hx
      · exact ⟨u, hu, r.mem_partsWithin_self n u⟩
      · obtain ⟨a, ha, hx⟩ := List.mem_flatMap.mp hx
        have hsize := size_lt_of_mem_tyArgs ha
        exact ⟨a, ha, mem_partsWithin_tyArgs hu (by omega) hx⟩

theorem mem_reach_tyArgs {x : Ty} (hx : x ∈ r.reach t) (hu : u ∈ r.tyArgs x) : u ∈ r.reach t :=
  mem_partsWithin_tyArgs hu (Nat.le_refl _) hx

theorem size_le_of_mem_partsWithin : ∀ {n : Nat} {t : Ty}, u ∈ r.partsWithin n t → u.size ≤ t.size
  | 0, t, h => by
      obtain rfl := List.mem_singleton.mp h
      exact Nat.le_refl _
  | n + 1, t, h => by
      rw [partsWithin] at h
      rcases List.mem_cons.mp h with rfl | h
      · exact Nat.le_refl _
      · obtain ⟨a, ha, h⟩ := List.mem_flatMap.mp h
        have hu := size_le_of_mem_partsWithin h
        have hsize := size_lt_of_mem_tyArgs ha
        omega

theorem length_partsWithin_le : ∀ (n : Nat) (t : Ty), (r.partsWithin n t).length ≤ t.size
  | 0, t => t.size_pos
  | n + 1, t => by
      have hargs := length_flatMap_le fun a (_ : a ∈ r.tyArgs t) => length_partsWithin_le n a
      have ht := r.total_tyArgs_lt t
      rw [partsWithin, List.length_cons]
      omega

/-- What a sequence enumerates is an argument of it, but for dictionaries. -/
theorem element?_cases {x : Ty} (h : r.element? x = some u) :
    u ∈ r.tyArgs x ∨
      ∃ k v, u = .keyValue k v ∧ x = .dictionary k v ∧ r.isRedefined (.dictionary k v) = false := by
  unfold element? at h
  by_cases hx : r.isRedefined x = true
  · rw [if_pos hx] at h
    cases h
  · rw [if_neg hx] at h
    cases x with
    | array e => exact .inl (by simp_all [tyArgs])
    | seq kind e => exact .inl (by simp_all [tyArgs])
    | dictionary k v =>
        obtain rfl := Option.some.inj h
        exact .inr ⟨k, v, rfl, rfl, by simpa using hx⟩
    | _ => cases h

/-- The parts of a type, and what sequences among them enumerate. -/
def enumerated (r : Registry) (t : Ty) : List Ty :=
  (r.reach t).flatMap fun u => u :: (r.element? u).toList

theorem length_enumerated_le (r : Registry) (t : Ty) : (r.enumerated t).length ≤ 2 * t.size := by
  have htwo : ∀ u ∈ r.reach t, (u :: (r.element? u).toList).length ≤ 2 := by
    intro u _
    cases r.element? u <;> simp
  exact Nat.le_trans (length_flatMap_le_mul htwo)
    (Nat.mul_le_mul_left 2 (length_partsWithin_le t.size t))

theorem mem_enumerated : u ∈ r.enumerated t ↔
    u ∈ r.reach t ∨
      ∃ k v, u = .keyValue k v ∧ .dictionary k v ∈ r.reach t ∧
        r.isRedefined (.dictionary k v) = false := by
  unfold enumerated
  rw [List.mem_flatMap]
  constructor
  · rintro ⟨x, hx, hu⟩
    rcases List.mem_cons.mp hu with rfl | hu
    · exact .inl hx
    · rcases element?_cases (Option.mem_toList.mp hu) with hu | ⟨k, v, rfl, rfl, hr⟩
      · exact .inl (mem_reach_tyArgs hx hu)
      · exact .inr ⟨k, v, rfl, hx, hr⟩
  · rintro (hu | ⟨k, v, rfl, hx, hr⟩)
    · exact ⟨u, hu, List.mem_cons_self⟩
    · exact ⟨_, hx, by simp [element?, hr]⟩

theorem mem_enumerated_self (r : Registry) (t : Ty) : t ∈ r.enumerated t :=
  mem_enumerated.mpr (.inl (r.mem_reach_self t))

theorem tyArgs_mem_enumerated {x : Ty} (hx : x ∈ r.enumerated t) (hu : u ∈ r.tyArgs x) :
    u ∈ r.enumerated t := by
  rcases mem_enumerated.mp hx with hx | ⟨k, v, rfl, hx, hr⟩
  · exact mem_enumerated.mpr (.inl (mem_reach_tyArgs hx hu))
  · -- Key and value of the pair are those of the dictionary.
    refine mem_enumerated.mpr (.inl (mem_reach_tyArgs hx ?_))
    by_cases hpair : r.isRedefined (.keyValue k v) = true
    · simp [tyArgs, hpair] at hu
    · simpa [tyArgs, hpair, hr] using hu

theorem stripExpression_mem_enumerated (hu : u ∈ r.enumerated t) :
    r.stripExpression u ∈ r.enumerated t := by
  cases u with
  | expression d =>
      by_cases hd : r.isRedefined (.expression d) = true
      · simpa [stripExpression, hd] using hu
      · have harg : d ∈ r.tyArgs (.expression d) := by simp [tyArgs, hd]
        simpa [stripExpression, hd] using tyArgs_mem_enumerated hu harg
  | _ => exact hu

theorem element?_mem_enumerated {x : Ty} (hx : x ∈ r.enumerated t) (hu : r.element? x = some u) :
    u ∈ r.enumerated t := by
  rcases element?_cases hu with harg | ⟨k, v, rfl, rfl, hr⟩
  · exact tyArgs_mem_enumerated hx harg
  · rcases mem_enumerated.mp hx with hx | ⟨_, _, hpair, -, -⟩
    · exact mem_enumerated.mpr (.inr ⟨k, v, rfl, hx, hr⟩)
    · cases hpair

theorem signature?_mem_enumerated {ret : Ty} {ps : List Ty} : ∀ {x : Ty}, x ∈ r.enumerated t →
    r.signature? x = some (ps, ret) → ∀ u ∈ ps ++ [ret], u ∈ r.enumerated t
  | .func ps' ret', hx, h, u, hu => by
      by_cases hr : r.isRedefined (.func ps' ret') = true
      · simp [signature?, hr] at h
      · obtain ⟨rfl, rfl⟩ : ps' = ps ∧ ret' = ret := by simpa [signature?, hr] using h
        exact tyArgs_mem_enumerated hx (by simpa [tyArgs, hr] using hu)
  | .expression d, hx, h, u, hu => by
      by_cases hr : r.isRedefined (.expression d) = true
      · simp [signature?, hr] at h
      · rw [signature?, if_neg hr] at h
        exact signature?_mem_enumerated (tyArgs_mem_enumerated hx (by simp [tyArgs, hr])) h u hu

theorem length_signature_le {ret : Ty} {ps : List Ty} : ∀ {x : Ty},
    r.signature? x = some (ps, ret) → ps.length + 1 ≤ x.size
  | .func ps' ret', h => by
      by_cases hr : r.isRedefined (.func ps' ret') = true
      · simp [signature?, hr] at h
      · obtain ⟨rfl, rfl⟩ : ps' = ps ∧ ret' = ret := by simpa [signature?, hr] using h
        have hlength := Ty.length_le_total_size ps'
        rw [Ty.size, Ty.sizeAll_eq]
        omega
  | .expression d, h => by
      by_cases hr : r.isRedefined (.expression d) = true
      · simp [signature?, hr] at h
      · rw [signature?, if_neg hr] at h
        exact Nat.le_succ_of_le (length_signature_le h)

theorem size_le_of_mem_enumerated (hu : u ∈ r.enumerated t) : u.size ≤ t.size := by
  rcases mem_enumerated.mp hu with hu | ⟨k, v, rfl, hu, -⟩
  · exact size_le_of_mem_partsWithin hu
  · have hsize : (Ty.keyValue k v).size = (Ty.dictionary k v).size := rfl
    rw [hsize]
    exact size_le_of_mem_partsWithin hu

end Registry

/-! ### Types of a configuration -/

/-- The model types that a mapping names. -/
def Mapping.named (m : Mapping) : List Ty :=
  m.rules.map (·.member.ty) ++ (m.bases ++ m.derived).map (·.destination)

theorem Mapping.total_named_le (m : Mapping) :
    total (m.named.map Ty.size) + m.named.length ≤ Configuration.mappingWeight m := by
  simp only [named, Configuration.mappingWeight, List.map_append, List.map_map, total_append,
    List.length_append, List.length_map, total_map_succ, Function.comp_def]
  omega

namespace Configuration

variable {c : Configuration}

theorem searchPending_mem {α : Type} {ask : Mapping → Option α} {found : α} :
    ∀ {n : Nat} {pending : List Mapping} {seen : List TyPair}, (∀ m ∈ pending, m ∈ c.maps) →
      c.searchPending ask n pending seen = some found → ∃ m ∈ c.maps, ask m = some found
  | 0, _, _, _, h => by cases h
  | _ + 1, [], _, _, h => by cases h
  | n + 1, m :: pending, seen, hmem, h => by
      have hpending := fun x hx => hmem x (List.mem_cons_of_mem m hx)
      rw [searchPending] at h
      split at h
      · exact searchPending_mem hpending h
      · split at h
        · rename_i hask
          exact ⟨m, hmem m List.mem_cons_self, hask.trans h⟩
        · refine searchPending_mem (fun x hx => ?_) h
          rcases List.mem_append.mp hx with hx | hx
          · obtain ⟨p, -, hp⟩ := List.mem_filterMap.mp hx
            exact List.mem_of_find?_eq_some hp
          · exact hpending x hx

/-- Inherited or not, a rule of a mapping is a rule of some mapping of the configuration. -/
theorem mem_allRules {m : Mapping} {p : MemberRule} (hm : m ∈ c.maps) (hp : p ∈ c.allRules m) :
    ∃ m' ∈ c.maps, p ∈ m'.rules := by
  obtain ⟨q, -, hq⟩ := List.mem_filterMap.mp hp
  rw [memberRule?, Option.or_eq_some_iff] at hq
  rcases hq with hq | ⟨-, hq⟩
  · obtain ⟨m', hm', hask⟩ := searchPending_mem
      (fun x hx => by rw [List.mem_singleton.mp hx]; exact hm) hq
    exact ⟨m', hm', (Mapping.ownRule?_mem (Option.filter_eq_some_iff.mp hask).1).1⟩
  · exact ⟨m, hm, (Mapping.ownRule?_mem hq).1⟩

/-- What a mapping implies is about types that some mapping names. -/
theorem mappingPairs_named {m : Mapping} {p : Ty × Ty} (hm : m ∈ c.maps)
    (hp : p ∈ c.mappingPairs m) : ∃ m' ∈ c.maps, p.1 ∈ m'.named := by
  rcases List.mem_append.mp hp with hp | hp
  · obtain ⟨rule, hrule, hpair⟩ := List.mem_filterMap.mp hp
    obtain ⟨m', hm', hrule⟩ := mem_allRules hm hrule
    have hty : p.1 = rule.member.ty := by
      unfold memberPair? at hpair
      split at hpair
      · split at hpair
        · rw [← Option.some.inj hpair]
        · cases hpair
      · cases hpair
    rw [hty]
    exact ⟨m', hm', List.mem_append_left _ (List.mem_map_of_mem hrule)⟩
  · obtain ⟨link, hlink, rfl⟩ := List.mem_map.mp hp
    exact ⟨m, hm, List.mem_append_right _ (List.mem_map_of_mem hlink)⟩

theorem length_mappingPairs_le (c : Configuration) (m : Mapping) :
    (c.mappingPairs m).length ≤ m.named.length := by
  have hpairs := List.length_filterMap_le c.memberPair? (c.allRules m)
  have hrules := List.length_filterMap_le (fun p => c.memberRule? m p.member.name) m.rules
  simp only [mappingPairs, Mapping.named, List.length_append, List.length_map]
  unfold allRules at hpairs ⊢
  omega

/-- The types that can be met when `model` is registered. -/
def reachable (c : Configuration) (model : Ty) : List Ty :=
  (model :: c.maps.flatMap Mapping.named).flatMap c.types.enumerated

/-- The size of the model type and of all that the configuration names. -/
def weight (c : Configuration) (model : Ty) : Nat := model.size + total (c.maps.map mappingWeight)

theorem mem_reachable {model k : Ty} : k ∈ c.reachable model ↔
    ∃ root, (root = model ∨ ∃ m ∈ c.maps, root ∈ m.named) ∧ k ∈ c.types.enumerated root := by
  simp [reachable, List.mem_flatMap]

theorem length_reachable_le (c : Configuration) (model : Ty) :
    (c.reachable model).length ≤ 2 * c.weight model := by
  have hnamed : ∀ m ∈ c.maps,
      (m.named.flatMap c.types.enumerated).length ≤ 2 * mappingWeight m := by
    intro m _
    have hlength := length_flatMap_le fun t (_ : t ∈ m.named) => c.types.length_enumerated_le t
    have hweight := m.total_named_le
    rw [total_map_two_mul] at hlength
    omega
  have hmaps := length_flatMap_le hnamed
  have hmodel := c.types.length_enumerated_le model
  rw [total_map_two_mul] at hmaps
  rw [reachable, List.flatMap_cons, List.length_append, List.flatMap_assoc, weight]
  omega

theorem size_le_weight {model k : Ty} (hk : k ∈ c.reachable model) : k.size ≤ c.weight model := by
  obtain ⟨root, hroot, hk⟩ := mem_reachable.mp hk
  have hsize := Registry.size_le_of_mem_enumerated hk
  rcases hroot with rfl | ⟨m, hm, hroot⟩
  · exact Nat.le_trans hsize (Nat.le_add_right _ _)
  · have hnamed := le_total (List.mem_map_of_mem (f := Ty.size) hroot)
    have hweight := m.total_named_le
    have hmaps := le_total (List.mem_map_of_mem (f := mappingWeight) hm)
    unfold weight
    omega

/-- Whatever one of these types implies concerns these types again. -/
theorem closedUnder_reachable (c : Configuration) (model : Ty) :
    c.ClosedUnder (c.reachable model) (c.weight model) := by
  intro k hk d pairs himplied
  have hsize := size_le_weight hk
  obtain ⟨root, hroot, hk⟩ := mem_reachable.mp hk
  have hstays : ∀ u ∈ c.types.enumerated root,
      c.types.stripExpression u ∈ c.reachable model := fun u hu =>
    mem_reachable.mpr ⟨root, hroot, Registry.stripExpression_mem_enumerated hu⟩
  unfold implied at himplied
  split at himplied
  · -- Delegates
    rename_i ps ret hsignature
    have hlength := Registry.length_signature_le hsignature
    have hparts := Registry.signature?_mem_enumerated hk hsignature
    split at himplied
    · cases himplied
    · split at himplied
      · obtain rfl := Except.ok.inj himplied
        refine ⟨?_, fun p hp => hstays p.1 ?_⟩
        · simp only [List.length_append, List.length_zip, List.length_singleton]
          omega
        · rcases List.mem_append.mp hp with hp | hp
          · exact hparts p.1 (List.mem_append_left _ (List.of_mem_zip hp).1)
          · rw [List.mem_singleton.mp hp]
            exact hparts ret (List.mem_append_right _ List.mem_cons_self)
      · cases himplied
  · split at himplied
    · -- Sequences
      split at himplied
      · rename_i helement _
        obtain rfl := Except.ok.inj himplied
        have hpos := k.size_pos
        refine ⟨Nat.le_trans hpos hsize, fun p hp => ?_⟩
        rw [List.mem_singleton.mp hp]
        exact hstays _ (Registry.element?_mem_enumerated hk helement)
      · obtain rfl := Except.ok.inj himplied
        exact ⟨Nat.zero_le _, fun p hp => by cases hp⟩
    · split at himplied
      · -- Instances of one generic definition
        obtain rfl := Except.ok.inj himplied
        have hargs := Ty.length_le_total_size (c.types.tyArgs k)
        have htotal := c.types.total_tyArgs_lt k
        refine ⟨?_, fun p hp => hstays p.1 ?_⟩
        · rw [List.length_zip]
          omega
        · exact Registry.tyArgs_mem_enumerated hk (List.of_mem_zip hp).1
      · split at himplied
        · -- Mapped types
          rename_i m hm
          obtain rfl := Except.ok.inj himplied
          have hmem := (mapping?_mem hm).1
          refine ⟨?_, fun p hp => ?_⟩
          · have hpairs := c.length_mappingPairs_le m
            have hweight := m.total_named_le
            have hmaps := le_total (List.mem_map_of_mem (f := mappingWeight) hmem)
            unfold weight
            omega
          · obtain ⟨m', hm', hp⟩ := mappingPairs_named hmem hp
            exact mem_reachable.mpr ⟨p.1, .inr ⟨m', hm', hp⟩,
              Registry.stripExpression_mem_enumerated (c.types.mem_enumerated_self p.1)⟩
        · obtain rfl := Except.ok.inj himplied
          exact ⟨Nat.zero_le _, fun p hp => by cases hp⟩

/-- Registration is the process of working off the pair: nothing that is pending is left out. -/
theorem drains_relate (c : Configuration) (model data : Ty) (t : TypeTable) :
    c.Drains [(model, data)] t ((c.relate model data).run t).1
      ((c.relate model data).run t).2 := by
  have hroot : c.types.stripExpression model ∈ c.reachable model :=
    List.mem_flatMap.mpr ⟨model, List.mem_cons_self,
      Registry.stripExpression_mem_enumerated (c.types.mem_enumerated_self model)⟩
  refine drains_drain (c.closedUnder_reachable model) (fun p hp => ?_) ?_
  · obtain rfl := List.mem_singleton.mp hp
    exact hroot
  · have hlength := c.length_reachable_le model
    have hfew : unregistered t (c.reachable model) ≤ 2 * c.weight model :=
      Nat.le_trans List.countP_le_length hlength
    have hbound : c.drainBound model = 2 * (c.weight model + 1) * (2 * (c.weight model + 1)) := rfl
    rw [hbound, List.length_singleton]
    have hsteps := Nat.mul_le_mul_left (c.weight model) hfew
    calc 1 + c.weight model * unregistered t (c.reachable model)
        ≤ c.weight model * (2 * c.weight model) + 2 * (c.weight model + 1) := by omega
      _ ≤ c.weight model * (2 * (c.weight model + 1)) + 2 * (c.weight model + 1) :=
          Nat.add_le_add_right (Nat.mul_le_mul_left _ (by omega)) _
      _ = (c.weight model + 1) * (2 * (c.weight model + 1)) := (Nat.succ_mul _ _).symm
      _ ≤ 2 * (c.weight model + 1) * (2 * (c.weight model + 1)) :=
          Nat.mul_le_mul_right _ (by omega)

theorem returns_relate_iff {model data : Ty} {t t' : TypeTable} {u : Unit} :
    Returns (c.relate model data) t u t' ↔ c.Drains [(model, data)] t (.ok ()) t' := by
  have hdrains := c.drains_relate model data t
  constructor
  · intro h
    rw [h] at hdrains
    exact hdrains
  · intro h
    obtain ⟨hresult, htable⟩ := h.unique hdrains
    exact Prod.ext hresult.symm htable.symm

end Configuration

end Recast
