import Recast.Proofs.KeyOrder
import Recast.Proofs.RowQueries
import Recast.Proofs.Selectors

/-! # Sorting by keys

Items are sorted by what a selector gives for them, within an evaluation and in memory.  Keys of
one kind have a linear order, and items are put into it; those of equal keys keep theirs.  A null
has no order with any key, so it is passed by none, and the items before it and those behind it
are sorted apart.

- `sortBy_congr`, `filter_sortBy` — only how the items themselves compare counts, and what is
  not below one another keeps its order.
- `Rows.OrderedBy` — what sorting by keys is to achieve.
- `sortBy_append_cons` — an item without an order parts the others.
- `Rows.orderBy_orders` — both ways of sorting achieve it, unless a null stands among keys that
  differ.
-/

namespace Recast

/-! ## §1  Stable sorting -/

section Sorting

variable {α : Type} {below below' : α → α → Bool} {xs : List α}

theorem sortBy_congr (h : ∀ a ∈ xs, ∀ b ∈ xs, below a b = below' a b) :
    sortBy below xs = sortBy below' xs := by
  have hattach : ∀ f : α → α → Bool, sortBy f xs =
      (sortBy (fun a b : {x // x ∈ xs} => f a.1 b.1) xs.attach).map (·.1) := fun f => by
    rw [← sortBy_map fun _ _ => rfl, List.attach_map_subtype_val]
  rw [hattach, hattach]
  congr 2
  funext a b
  exact h a a.2 b b.2

variable {p : α → Bool}

theorem filter_sink {x : α} {ys : List α} (h : ∀ y ∈ ys, p x → p y → below x y = false) :
    (sink below x ys).filter p = (x :: ys).filter p := by
  fun_induction sink below x ys with
  | case1 => rfl
  | case2 y ys hxy ih =>
      obtain ⟨hy, hys⟩ := List.forall_mem_cons.mp h
      rw [List.filter_cons, ih hys, List.filter_cons, List.filter_cons, List.filter_cons]
      -- Only one of `x` and `y` is kept, since `x` moved past `y`.
      cases hpx : p x with
      | false => rfl
      | true =>
          have hpy : p y = false := by
            rw [← Bool.not_eq_true]
            intro hpy
            rw [hy hpx hpy] at hxy
            cases hxy
          simp [hpy]
  | case3 => rfl

theorem filter_foldl_sink {done : List α}
    (h : ∀ a ∈ xs ++ done, ∀ b ∈ xs ++ done, p a → p b → below a b = false) :
    (xs.foldl (fun done x => sink below x done) done).filter p = (xs.reverse ++ done).filter p := by
  induction xs generalizing done with
  | nil => rfl
  | cons x xs ih =>
      -- The items ahead and those done stay the same ones, so the hypothesis carries over.
      have hperm : (xs ++ sink below x done).Perm (x :: xs ++ done) :=
        ((sink_perm below x done).append_left xs).trans List.perm_middle
      rw [List.foldl_cons, ih fun a ha b hb => h a (hperm.mem_iff.mp ha) b (hperm.mem_iff.mp hb),
        List.filter_append, filter_sink fun y hy => h x (by simp) y (by simp [hy]),
        ← List.filter_append, List.reverse_cons, List.append_assoc]
      rfl

/-- Items none of which is below another stay in their order. -/
theorem filter_sortBy (h : ∀ a ∈ xs, ∀ b ∈ xs, p a → p b → below a b = false) :
    (sortBy below xs).filter p = xs.filter p := by
  rw [sortBy, List.filter_reverse, filter_foldl_sink (by simpa using h), List.append_nil,
    List.filter_reverse, List.reverse_reverse]

/-- Items none of which is below another are sorted. -/
theorem sortBy_eq_self (h : ∀ a ∈ xs, ∀ b ∈ xs, below a b = false) : sortBy below xs = xs := by
  have hfilter := filter_sortBy (p := fun _ => true) fun a ha b hb _ _ => h a ha b hb
  simpa using hfilter

variable {x : α} {ys : List α}

/-- What is below no item stays in front of them. -/
theorem sink_eq_cons (h : ∀ y ∈ ys, below x y = false) : sink below x ys = x :: ys := by
  cases ys with
  | nil => rfl
  | cons y ys => rw [sink, if_neg (by simp [h y])]

/-- An item does not get past one that it is not below. -/
theorem sink_append_cons {y : α} {done behind : List α} (hy : below y x = false) :
    sink below y (done ++ x :: behind) = sink below y done ++ x :: behind := by
  induction done with
  | nil => exact if_neg (by simp [hy])
  | cons z done ih =>
      rw [List.cons_append, sink, sink, ih]
      split <;> rfl

theorem foldl_sink_append_cons {done behind : List α} (h : ∀ y ∈ ys, below y x = false) :
    ys.foldl (fun done x => sink below x done) (done ++ x :: behind) =
      ys.foldl (fun done x => sink below x done) done ++ x :: behind := by
  induction ys generalizing done with
  | nil => rfl
  | cons y ys ih =>
      obtain ⟨hy, hys⟩ := List.forall_mem_cons.mp h
      rw [List.foldl_cons, List.foldl_cons, sink_append_cons hy, ih hys]

/-- An item that is below no other, nor above, stays in its place, and parts those before it from
those behind it. -/
theorem sortBy_append_cons (h : ∀ y ∈ xs ++ ys, below x y = false ∧ below y x = false) :
    sortBy below (xs ++ x :: ys) = sortBy below xs ++ x :: sortBy below ys := by
  have hfront : sink below x (xs.foldl (fun done x => sink below x done) []) =
      x :: xs.foldl (fun done x => sink below x done) [] := by
    refine sink_eq_cons fun y hy => (h y (List.mem_append_left _ ?_)).1
    simpa using (foldl_sink_perm below xs []).mem_iff.mp hy
  -- Once it is in front of those before it, the others sink in front of it.
  have hback := fun y hy => (h y (List.mem_append_right _ hy)).2
  rw [sortBy, List.foldl_append, List.foldl_cons, hfront, ← List.nil_append (x :: _),
    foldl_sink_append_cons hback]
  simp [sortBy]

end Sorting

/-! ## §2  Sorting by keys -/

namespace Rows

/-- The sorted items are those there were, none behind one that its key goes before, and those of
equal keys in the order that they were in. -/
structure OrderedBy (key : Value → Value) (descending : Bool) (items sorted : List Value) :
    Prop where
  perm : sorted.Perm items
  ordered : sorted.Pairwise fun a b => key a ≠ .null → key b ≠ .null →
    (key b).goesBefore descending (key a) = false
  stable : ∀ x ∈ items, key x ≠ .null →
    sorted.filter (fun a => (key a).order? (key x) == some .eq) =
      items.filter fun a => (key a).order? (key x) == some .eq

/-- No key is null, or else the others are all equal. -/
def NullsApart (key : Value → Value) (items : List Value) : Prop :=
  (∃ x ∈ items, key x = .null) → ∀ x ∈ items, ∀ y ∈ items, key x ≠ .null → key y ≠ .null →
    (key x).order? (key y) = some .eq

variable {kind : KeyKind} {key : Value → Value} {items : List Value} {descending : Bool}

theorem sorted_zip : sorted descending ((items.map key).zip items) =
    sortBy (fun a b => (key a).goesBefore descending (key b)) items := by
  have hzip : ∀ items : List Value,
      (items.map key).zip items = items.map fun item => (key item, item) := by
    intro items
    induction items with
    | nil => rfl
    | cons item items ih => rw [List.map_cons, List.zip_cons_cons, ih, List.map_cons]
  have hsort : sortBy (fun a b : Value × Value => a.1.goesBefore descending b.1)
      (items.map fun item => (key item, item)) =
        (sortBy (fun a b => (key a).goesBefore descending (key b)) items).map
          fun item => (key item, item) := sortBy_map (fun _ _ => rfl) items
  rw [hzip]
  show (sortBy (fun a b : Value × Value => a.1.goesBefore descending b.1) _).map (·.2) = _
  rw [hsort, List.map_map]
  exact List.map_id _

/-- Items with keys that are all of the kind are put in order. -/
theorem orderedBy_of_has (hkeys : ∀ x ∈ items, kind.Has (key x)) :
    OrderedBy key descending items
      (sortBy (fun a b => (key a).goesBefore descending (key b)) items) := by
  obtain ⟨α, _, rank, hrank⟩ := kind.exists_rank_goesBefore descending
  have hperm := sortBy_perm (fun a b => (key a).goesBefore descending (key b)) items
  have hranked : sortBy (fun a b => (key a).goesBefore descending (key b)) items =
      sortBy (fun a b => decide (rank (key a) < rank (key b))) items :=
    sortBy_congr fun a ha b hb => (hrank _ _ (hkeys a ha) (hkeys b hb)).1
  refine ⟨hperm, ?_, fun x hx _ => filter_sortBy fun a ha b hb hax hbx => ?_⟩
  · have hascending : (sortBy (fun a b => decide (rank (key a) < rank (key b))) items).Pairwise
        fun a b => ¬ decide (rank (key b) < rank (key a)) := by
      refine sortBy_ascending (fun a b => ?_) (fun a b c => ?_) items
      · simpa using le_of_lt
      · simpa using fun hba hcb => hcb.trans hba
    rw [← hranked] at hascending
    refine hascending.imp_of_mem fun {a b} ha hb hab _ _ => ?_
    rw [(hrank _ _ (hkeys b (hperm.mem_iff.mp hb)) (hkeys a (hperm.mem_iff.mp ha))).1]
    simpa using hab
  · have hxa := (hrank _ _ (hkeys a ha) (hkeys x hx)).2.1.mp (beq_iff_eq.mp hax)
    have hxb := (hrank _ _ (hkeys b hb) (hkeys x hx)).2.1.mp (beq_iff_eq.mp hbx)
    rw [(hrank _ _ (hkeys a ha) (hkeys b hb)).1, hxa, hxb]
    simp

/-- With nulls among keys that are otherwise equal nothing moves. -/
theorem orderedBy_of_null (hnulls : NullsApart key items) (hnull : ∃ x ∈ items, key x = .null) :
    OrderedBy key descending items
      (sortBy (fun a b => (key a).goesBefore descending (key b)) items) := by
  have hsame := hnulls hnull
  have hnone : ∀ a ∈ items, ∀ b ∈ items, (key a).goesBefore descending (key b) = false := by
    intro a ha b hb
    by_cases hor : key a = .null ∨ key b = .null
    · exact Value.goesBefore_null hor
    · obtain ⟨hna, hnb⟩ := not_or.mp hor
      rw [Value.goesBefore, hsame a ha b hb hna hnb]
      cases descending <;> rfl
  rw [sortBy_eq_self hnone]
  exact ⟨.refl _, List.pairwise_of_forall_mem_list fun a ha b hb _ _ => hnone b hb a ha,
    fun _ _ _ => rfl⟩

theorem orderedBy_sortBy (hkeys : kind.HasAll (items.map key))
    (hnulls : NullsApart key items) : OrderedBy key descending items
      (sortBy (fun a b => (key a).goesBefore descending (key b)) items) := by
  by_cases hnull : ∃ x ∈ items, key x = .null
  · exact orderedBy_of_null hnulls hnull
  · exact orderedBy_of_has fun x hx => hkeys.has (List.mem_map_of_mem hx) fun h => hnull ⟨x, hx, h⟩

theorem applyEach_eq_ok {r : Registry} {selector : Expr}
    (h : ∀ row ∈ items, r.apply selector [row] = .ok (key row)) :
    applyEach r selector items = .ok (items.map key) := by
  induction items with
  | nil => rfl
  | cons row rows ih =>
      obtain ⟨hrow, hrows⟩ := List.forall_mem_cons.mp h
      rw [applyEach, hrow, ih hrows]
      rfl

/-- **Sorting puts items in the order of their keys.**  Where a selector answers every item with a
key of one kind or null, sorting by it succeeds, within an evaluation and in memory, and rearranges
the items.  They end up in the order of their keys, those of equal keys in the order that they were
in, if no key is null or the others are all equal. -/
theorem orderBy_orders (hkeys : kind.HasAll (items.map key)) :
    (∀ {r : Registry} {n : Nat} {env : Env} {call : Expr},
      r.SelectorCall n env (Registry.orderName descending) items key call →
        ∃ sorted, (r.eval (n + 1) call).run env = (.ok (.list sorted), env) ∧
          sorted.Perm items ∧
          (NullsApart key items → OrderedBy key descending items sorted)) ∧
    ∀ {r : Registry} {selector : Expr} {s : Rows}, s.rows = items →
      (∀ row ∈ items, r.apply selector [row] = .ok (key row)) →
        ∃ sorted, s.orderBy r selector descending = (none, { s with rows := sorted }) ∧
          sorted.Perm items ∧
          (NullsApart key items → OrderedBy key descending items sorted) := by
  refine ⟨fun {r n env call} hcall => ?_, fun {r selector s} hs hselector => ?_⟩
  · refine ⟨_, ?_, sortBy_perm _ items, orderedBy_sortBy hkeys⟩
    have hsorted : (if descending then sortDescending else sortAscending)
        ((items.map key).zip items) = sorted descending ((items.map key).zip items) := by
      cases descending with
      | false => rfl
      | true => exact sortDescending_eq _
    rw [hcall.run_orderBy, hsorted, sorted_zip]
  · subst hs
    refine ⟨_, ?_, sortBy_perm _ s.rows, orderedBy_sortBy hkeys⟩
    rw [orderBy, applyEach_eq_ok hselector, ← sorted_zip]
    rfl

/-! ### Ages, known and not -/

namespace AgeOrder

def orderMethod (descending : Bool) : Method :=
  RowQuery.Numbers.method (Registry.orderName descending) [.nullable .int32, .nullable .int32]

def known : List Value := [.int 3, .int 1, .int 3, .int 2]

def unknown : List Value := [.int 3, .null, .int 1]

theorem hasAll_known : KeyKind.integer.HasAll (known.map id) := by
  simp [known, KeyKind.has_int, inInt64, int64Min, int64Max]

theorem hasAll_unknown : KeyKind.integer.HasAll (unknown.map id) := by
  simp [unknown, KeyKind.has_int, inInt64, int64Min, int64Max]

end AgeOrder

open Ages AgeOrder in
/-- Known ages from high to low. -/
theorem orderBy_orders_ages :
    (∃ sorted, (({} : Registry).eval 2 (call (orderMethod true) known)).run .empty =
        (.ok (.list sorted), .empty) ∧ OrderedBy id true known sorted) ∧
      ∃ sorted, orderBy {} ⟨.nullable .int32, known⟩ itself true =
        (none, ⟨.nullable .int32, sorted⟩) ∧ OrderedBy id true known sorted := by
  have hnulls : NullsApart id known := by
    rintro ⟨age, hage, hnull⟩
    have hnone : Value.null ∉ known := by simp [known, Value.int]
    exact absurd (hnull ▸ hage) hnone
  obtain ⟨hcall, hrows⟩ := @orderBy_orders .integer id known true hasAll_known
  obtain ⟨sorted, hrun, -, hsorted⟩ := hcall (call_selects {} 0 .empty (m := orderMethod true)
    known rfl)
  obtain ⟨sorted', hrun', -, hsorted'⟩ := @hrows {} itself ⟨.nullable .int32, known⟩ rfl
    fun _ _ => rfl
  exact ⟨⟨sorted, hrun, hsorted hnulls⟩, sorted', hrun', hsorted' hnulls⟩

open Ages AgeOrder in
/-- An unknown age keeps the ages around it in the wrong order. -/
theorem orderBy_orders_fails :
    (¬ ∀ (kind : KeyKind) (key : Value → Value) (descending : Bool) (items : List Value)
        (r : Registry) (n : Nat) (env : Env) (call : Expr),
      kind.HasAll (items.map key) →
      r.SelectorCall n env (Registry.orderName descending) items key call →
        ∃ sorted, (r.eval (n + 1) call).run env = (.ok (.list sorted), env) ∧
          OrderedBy key descending items sorted) ∧
    ¬ ∀ (kind : KeyKind) (key : Value → Value) (descending : Bool) (r : Registry)
        (selector : Expr) (s : Rows),
      kind.HasAll (s.rows.map key) →
      (∀ row ∈ s.rows, r.apply selector [row] = .ok (key row)) →
        ∃ sorted, s.orderBy r selector descending = (none, { s with rows := sorted }) ∧
          OrderedBy key descending s.rows sorted := by
  have hwrong : ¬ OrderedBy id false unknown unknown := by
    intro h
    cases (List.pairwise_cons.mp h.ordered).1 (.int 1) (by simp) nofun nofun
  constructor
  · intro h
    obtain ⟨sorted, hrun, hsorted⟩ := h .integer id false unknown {} 1 .empty _
      hasAll_unknown (call_selects {} 0 .empty (m := orderMethod false) unknown rfl)
    cases hrun
    exact hwrong hsorted
  · intro h
    obtain ⟨sorted, hrun, hsorted⟩ := h .integer id false {} itself ⟨.nullable .int32, unknown⟩
      hasAll_unknown fun _ _ => rfl
    cases hrun
    exact hwrong hsorted

/-! ### Nulls among keys that differ -/

/-- A null parts the items before it from those behind it. -/
theorem sortBy_null {x : Value} {front back : List Value} (hx : key x = .null) :
    sortBy (fun a b => (key a).goesBefore descending (key b)) (front ++ x :: back) =
      sortBy (fun a b => (key a).goesBefore descending (key b)) front ++
        x :: sortBy (fun a b => (key a).goesBefore descending (key b)) back :=
  sortBy_append_cons fun _ _ => ⟨Value.goesBefore_null (.inl hx), Value.goesBefore_null (.inr hx)⟩

theorem NullsApart.perm {items' : List Value} (h : NullsApart key items)
    (hperm : items'.Perm items) : NullsApart key items' := by
  rintro ⟨x, hx, hnull⟩ y hy z hz
  exact h ⟨x, hperm.mem_iff.mp hx, hnull⟩ y (hperm.mem_iff.mp hy) z (hperm.mem_iff.mp hz)

/-- Any item may be put first. -/
theorem exists_perm_cons {α : Type} {x : α} {xs : List α} (hx : x ∈ xs) :
    ∃ rest, xs.Perm (x :: rest) ∧ ∀ y ∈ xs, y ≠ x → y ∈ rest := by
  obtain ⟨front, back, rfl⟩ := List.append_of_mem hx
  refine ⟨front ++ back, List.perm_middle, fun y hy hne => ?_⟩
  exact List.mem_of_ne_of_mem hne (List.perm_middle.mem_iff.mp hy)

/-- The condition on nulls is needed: items that do not meet it can be arranged so that a null
keeps a key from its place. -/
theorem nullsApart_iff (hkeys : kind.HasAll (items.map key)) :
    NullsApart key items ↔ ∀ arranged : List Value, arranged.Perm items →
      OrderedBy key descending arranged
        (sortBy (fun a b => (key a).goesBefore descending (key b)) arranged) := by
  constructor
  · intro h arranged hperm
    exact orderedBy_sortBy (fun v hv => hkeys v ((hperm.map key).mem_iff.mp hv)) (h.perm hperm)
  · rintro h ⟨x, hx, hnull⟩ y hy z hz hny hnz
    obtain ⟨α, _, rank, hrank⟩ := kind.exists_rank_goesBefore descending
    have hhas : ∀ y ∈ items, key y ≠ .null → kind.Has (key y) := fun y hy =>
      hkeys.has (List.mem_map_of_mem hy)
    have hle : ∀ y ∈ items, ∀ z ∈ items, key y ≠ .null → key z ≠ .null →
        rank (key y) ≤ rank (key z) := by
      intro y hy z hz hny hnz
      by_contra hlt
      -- First `y`, then the null, and `z` among the others.
      obtain ⟨rest, hitems, hmem⟩ := exists_perm_cons hy
      obtain ⟨others, hrest, hmem'⟩ := exists_perm_cons
        (hmem x hx fun hxy => hny (by rw [← hxy, hnull]))
      have hz' := hmem' z (hmem z hz fun hzy => hlt (by rw [hzy])) fun hzx =>
        hnz (by rw [hzx, hnull])
      have hordered := (h ([y] ++ x :: others) ((hitems.trans (hrest.cons y)).symm)).ordered
      rw [sortBy_null hnull] at hordered
      have hplace := (List.pairwise_cons.mp hordered).1 z
        (List.mem_cons_of_mem x ((sortBy_perm _ others).mem_iff.mpr hz')) hny hnz
      rw [(hrank _ _ (hhas z hz hnz) (hhas y hy hny)).1] at hplace
      exact hlt (not_lt.mp (of_decide_eq_false hplace))
    refine (hrank _ _ (hhas y hy hny) (hhas z hz hnz)).2.1.mpr ?_
    exact le_antisymm (hle y hy z hz hny hnz) (hle z hz y hy hnz hny)

end Rows

end Recast
