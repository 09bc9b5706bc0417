/-! # Stable sorting

Insertion sort on a strict order.  Each item moves left past the items it is
strictly below, and no further, so items that neither is below the other keep
their order.

- `sortBy_perm` — sorting rearranges.
- `sortBy_ascending` — no item of the result is below one that stands before it.
- `sortBy_map` — only how items compare decides how they are sorted.
-/

namespace Recast

variable {α β : Type}

/-- `x` put into a reversed prefix: past the items that `x` is below. -/
def sink (below : α → α → Bool) (x : α) : List α → List α
  | [] => [x]
  | y :: ys => if below x y then y :: sink below x ys else x :: y :: ys

def sortBy (below : α → α → Bool) (xs : List α) : List α :=
  (xs.foldl (fun done x => sink below x done) []).reverse

theorem sink_perm (below : α → α → Bool) (x : α) (ys : List α) :
    (sink below x ys).Perm (x :: ys) := by
  fun_induction sink below x ys with
  | case1 => exact .refl _
  | case2 y ys _ ih => exact (ih.cons y).trans (.swap x y ys)
  | case3 => exact .refl _

theorem foldl_sink_perm (below : α → α → Bool) (xs done : List α) :
    (xs.foldl (fun done x => sink below x done) done).Perm (xs ++ done) := by
  induction xs generalizing done with
  | nil => exact .refl _
  | cons x xs ih =>
      refine (ih (sink below x done)).trans ?_
      refine ((sink_perm below x done).append_left xs).trans ?_
      exact List.perm_middle

theorem sortBy_perm (below : α → α → Bool) (xs : List α) : (sortBy below xs).Perm xs :=
  (List.reverse_perm _).trans (by simpa using foldl_sink_perm below xs [])

/-- Sinking keeps a reversed prefix descending. -/
theorem sink_descending {below : α → α → Bool} (hasymm : ∀ a b, below a b → ¬ below b a)
    (htrans : ∀ a b c, ¬ below a b → ¬ below b c → ¬ below a c) (x : α) {ys : List α}
    (hys : ys.Pairwise fun a b => ¬ below a b) :
    (sink below x ys).Pairwise fun a b => ¬ below a b := by
  fun_induction sink below x ys with
  | case1 => exact List.pairwise_singleton _ _
  | case2 y ys hxy ih =>
      obtain ⟨hy, hys⟩ := List.pairwise_cons.mp hys
      refine List.pairwise_cons.mpr ⟨fun z hz => ?_, ih hys⟩
      rcases List.mem_cons.mp ((sink_perm below x ys).mem_iff.mp hz) with rfl | hz
      · exact hasymm _ _ hxy
      · exact hy z hz
  | case3 y ys hxy =>
      obtain ⟨hy, -⟩ := List.pairwise_cons.mp hys
      refine List.pairwise_cons.mpr ⟨fun z hz => ?_, hys⟩
      rcases List.mem_cons.mp hz with rfl | hz
      · exact hxy
      · exact htrans _ _ _ hxy (hy z hz)

theorem sortBy_ascending {below : α → α → Bool} (hasymm : ∀ a b, below a b → ¬ below b a)
    (htrans : ∀ a b c, ¬ below a b → ¬ below b c → ¬ below a c) (xs : List α) :
    (sortBy below xs).Pairwise fun a b => ¬ below b a := by
  have hfold : ∀ (xs done : List α), done.Pairwise (fun a b => ¬ below a b) →
      (xs.foldl (fun done x => sink below x done) done).Pairwise fun a b => ¬ below a b := by
    intro xs
    induction xs with
    | nil => exact fun _ hdone => hdone
    | cons x xs ih => exact fun done hdone => ih _ (sink_descending hasymm htrans x hdone)
  exact List.pairwise_reverse.mpr (hfold xs [] .nil)

theorem sink_map {below : α → α → Bool} {below' : β → β → Bool} {f : α → β}
    (h : ∀ a b, below' (f a) (f b) = below a b) (x : α) (ys : List α) :
    sink below' (f x) (ys.map f) = (sink below x ys).map f := by
  fun_induction sink below x ys with
  | case1 => rfl
  | case2 y ys hxy ih => rw [List.map_cons, sink, h, if_pos hxy, ih, List.map_cons]
  | case3 y ys hxy => rw [List.map_cons, sink, h, if_neg hxy, List.map_cons, List.map_cons]

theorem sortBy_map {below : α → α → Bool} {below' : β → β → Bool} {f : α → β}
    (h : ∀ a b, below' (f a) (f b) = below a b) (xs : List α) :
    sortBy below' (xs.map f) = (sortBy below xs).map f := by
  have hfold : ∀ (xs done : List α),
      (xs.map f).foldl (fun done x => sink below' x done) (done.map f) =
        (xs.foldl (fun done x => sink below x done) done).map f := by
    intro xs
    induction xs with
    | nil => exact fun _ => rfl
    | cons x xs ih =>
        intro done
        rw [List.map_cons, List.foldl_cons, List.foldl_cons, sink_map h, ih]
  rw [sortBy, sortBy, List.map_reverse, ← hfold xs [], List.map_nil]

end Recast
