import Mathlib.Data.List.Basic
import Recast.Proofs.Planning
import Recast.Proofs.Registration

/-! # Where rules are inherited from

A mapping is searched with its bases by a stack of pending mappings.  What the
search amounts to is a depth-first traversal: a mapping, then everything below its
first base, then below the second one, and so on, no mapping twice.

- `Configuration.visit` — the traversal by recursion, `Configuration.preorder` from
  a mapping.
- `Configuration.searchPending_eq` — the search answers with the first mapping of the
  traversal that does, and its bound on the steps is never felt.
- `Configuration.inherits_inPreorder` — rules, path rules and the rules of a whole mapping.
-/

namespace Recast

/-! ## §1  The traversal -/

theorem total_filter_le {α : Type} (f : α → Nat) {keep keep' : α → Bool}
    (hkeep : ∀ x, keep' x = true → keep x = true) : ∀ xs : List α,
      total ((xs.filter keep').map f) ≤ total ((xs.filter keep).map f)
  | [] => Nat.le_refl _
  | x :: xs => by
      have hrest := total_filter_le f hkeep xs
      by_cases hx' : keep' x = true
      · rw [List.filter_cons_of_pos hx', List.filter_cons_of_pos (hkeep x hx')]
        exact Nat.add_le_add_left hrest (f x)
      · rw [List.filter_cons_of_neg hx']
        by_cases hx : keep x = true
        · rw [List.filter_cons_of_pos hx]
          exact Nat.le_trans hrest (Nat.le_add_left _ _)
        · rw [List.filter_cons_of_neg hx]
          exact hrest

/-- What is sorted out weighs at least as much as one of its members. -/
theorem total_filter_add_le {α : Type} (f : α → Nat) {keep keep' : α → Bool}
    (hkeep : ∀ x, keep' x = true → keep x = true) {a : α} (ha : keep a = true)
    (ha' : keep' a ≠ true) : ∀ {xs : List α}, a ∈ xs →
      total ((xs.filter keep').map f) + f a ≤ total ((xs.filter keep).map f)
  | x :: xs, hmem => by
      by_cases hxa : x = a
      · subst hxa
        rw [List.filter_cons_of_neg ha', List.filter_cons_of_pos ha, Nat.add_comm]
        exact Nat.add_le_add_left (total_filter_le f hkeep xs) (f x)
      · have hrest := total_filter_add_le f hkeep ha ha' (List.mem_of_ne_of_mem (Ne.symm hxa) hmem)
        by_cases hx' : keep' x = true
        · rw [List.filter_cons_of_pos hx', List.filter_cons_of_pos (hkeep x hx'), List.map_cons,
            List.map_cons, total, total, Nat.add_assoc]
          exact Nat.add_le_add_left hrest (f x)
        · rw [List.filter_cons_of_neg hx']
          by_cases hx : keep x = true
          · rw [List.filter_cons_of_pos hx]
            exact Nat.le_trans hrest (Nat.le_add_left _ _)
          · rw [List.filter_cons_of_neg hx]
            exact hrest

namespace Configuration

variable (c : Configuration)

/-- The weight of the mappings that are not among `seen`. -/
def unmetWeight (f : Mapping → Nat) (seen : List TyPair) : Nat :=
  total ((c.maps.filter fun m => !seen.contains m.pair).map f)

variable {c} {seen seen' ps qs : List TyPair} {p : TyPair} {m : Mapping}

theorem mappingOf?_mem (hm : c.mappingOf? p = some m) : m ∈ c.maps ∧ m.pair = p :=
  ⟨List.mem_of_find?_eq_some hm, by simpa using List.find?_some hm⟩

/-- A mapping that is met for the first time is taken off. -/
theorem unmetWeight_visit (f : Mapping → Nat) (more : List TyPair) (hp : p ∉ seen)
    (hm : c.mappingOf? p = some m) :
    c.unmetWeight f (more ++ p :: seen) + f m ≤ c.unmetWeight f seen := by
  obtain ⟨hmem, rfl⟩ := mappingOf?_mem hm
  refine total_filter_add_le f (fun x hx => ?_) ?_ ?_ hmem
  · simp_all
  · simpa using hp
  · simp

variable (c) in
/-- The mappings of the pairs and what is below them, depth first: a mapping comes before its
bases, and all that is below one base before the next one.  The pairs of `seen` are passed over,
and so is a pair that has been met before. -/
def visit (seen : List TyPair) : List TyPair → List Mapping
  | [] => []
  | p :: ps =>
    if _hp : p ∈ seen then visit seen ps
    else match _hm : c.mappingOf? p with
      | none => visit seen ps
      | some m =>
        let below := visit (p :: seen) m.bases
        m :: (below ++ visit (below.map (·.pair) ++ p :: seen) ps)
termination_by ps => (c.unmetWeight (fun _ => 1) seen, ps.length)
decreasing_by
  · exact .right _ (Nat.lt_succ_self _)
  · exact .right _ (Nat.lt_succ_self _)
  · exact .left _ _ (unmetWeight_visit (fun _ => 1) [] _hp _hm)
  · exact .left _ _ (unmetWeight_visit (fun _ => 1) _ _hp _hm)

variable (c) in
/-- A mapping and everything that it takes rules from, in the order of the traversal. -/
def preorder (m : Mapping) : List Mapping := m :: c.visit [m.pair] m.bases

theorem visit_nil : c.visit seen [] = [] := by
  rw [visit]

theorem visit_seen (hp : p ∈ seen) : c.visit seen (p :: ps) = c.visit seen ps := by
  rw [visit, dif_pos hp]

theorem visit_missing (hp : c.mappingOf? p = none) : c.visit seen (p :: ps) = c.visit seen ps := by
  rw [visit]
  split
  · rfl
  · split
    · rfl
    · rename_i hm
      cases hp.symm.trans hm

theorem visit_new (hp : p ∉ seen) (hm : c.mappingOf? p = some m) :
    c.visit seen (p :: ps) = m :: (c.visit (p :: seen) m.bases ++
      c.visit ((c.visit (p :: seen) m.bases).map (·.pair) ++ p :: seen) ps) := by
  rw [visit, dif_neg hp]
  split
  · rename_i hnone
    cases hnone.symm.trans hm
  · rename_i m' hm'
    obtain rfl := Option.some.inj (hm'.symm.trans hm)
    rfl

/-- Only which pairs have been seen matters. -/
theorem visit_congr : ∀ {seen' : List TyPair}, (∀ p, p ∈ seen ↔ p ∈ seen') →
    c.visit seen ps = c.visit seen' ps := by
  fun_induction visit c seen ps with
  | case1 seen =>
      intro seen' _
      rw [visit_nil]
  | case2 seen p ps hp ih =>
      intro seen' h
      rw [ih h, visit_seen ((h p).mp hp)]
  | case3 seen p ps hp hm ih =>
      intro seen' h
      rw [ih h, visit_missing hm]
  | case4 seen p ps hp m hm below ihbelow =>
      rename_i ihps
      intro seen' h
      have hbelow : below = c.visit (p :: seen') m.bases := ihbelow fun q => by simp [h q]
      rw [visit_new (fun hp' => hp ((h p).mpr hp')) hm, ← hbelow,
        @ihps (below.map (·.pair) ++ p :: seen') fun q => by simp [h q]]

/-- What comes later is visited with all that the front has come to. -/
theorem visit_append : c.visit seen (ps ++ qs) =
    c.visit seen ps ++ c.visit ((c.visit seen ps).map (·.pair) ++ seen) qs := by
  fun_induction visit c seen ps with
  | case1 seen => rfl
  | case2 seen p ps hp ih => rw [List.cons_append, visit_seen hp, ih]
  | case3 seen p ps hp hm ih => rw [List.cons_append, visit_missing hm, ih]
  | case4 seen p ps hp m hm below ihbelow ihps =>
      -- The two sides have come to the same pairs in a different order.
      have hlater : ∀ after : List Mapping,
          c.visit (after.map (·.pair) ++ (below.map (·.pair) ++ p :: seen)) qs =
            c.visit ((m :: (below ++ after)).map (·.pair) ++ seen) qs := by
        intro after
        refine visit_congr fun q => ?_
        simp only [List.map_cons, List.map_append, (mappingOf?_mem hm).2, List.mem_append,
          List.mem_cons]
        grind
      rw [List.cons_append, visit_new hp hm, ihps, hlater, ← List.append_assoc]
      rfl

/-- No mapping is visited twice, and none of a pair that had been seen. -/
theorem visit_fresh : ((c.visit seen ps).map (·.pair)).Nodup ∧
    ∀ x ∈ c.visit seen ps, x.pair ∉ seen := by
  fun_induction visit c seen ps with
  | case1 seen => exact ⟨List.nodup_nil, nofun⟩
  | case2 seen p ps hp ih => exact ih
  | case3 seen p ps hp hm ih => exact ih
  | case4 seen p ps hp m hm below ihbelow ihps =>
      obtain ⟨hbelow, hnotbelow⟩ := ihbelow
      obtain ⟨hafter, hnotafter⟩ := ihps
      have hpair := (mappingOf?_mem hm).2
      constructor
      · rw [List.map_cons, List.map_append, hpair]
        refine List.nodup_cons.mpr ⟨?_, List.nodup_append.mpr ⟨hbelow, hafter, ?_⟩⟩
        · grind
        · grind
      · grind

theorem preorder_nodup (c : Configuration) (m : Mapping) :
    ((c.preorder m).map (·.pair)).Nodup := by
  obtain ⟨hnodup, hfresh⟩ := @visit_fresh c [m.pair] m.bases
  refine List.nodup_cons.mpr ⟨fun hmem => ?_, hnodup⟩
  obtain ⟨x, hx, hpair⟩ := List.mem_map.mp hmem
  exact hfresh x hx (hpair ▸ List.mem_singleton_self _)

/-! ## §2  The search -/

section Search

variable {α : Type} {ask : Mapping → Option α}

/-- Every step takes a pending mapping away or visits one that brings its bases, so as many steps
as there are pending mappings and bases of unvisited ones come to the end of the traversal. -/
theorem searchPending_visit : ∀ {n : Nat} {ps seen : List TyPair},
    (ps.filterMap c.mappingOf?).length + c.unmetWeight (·.bases.length) seen ≤ n →
      c.searchPending ask n (ps.filterMap c.mappingOf?) seen = (c.visit seen ps).findSome? ask
  | n, [], seen, _ => by
      rw [visit_nil]
      cases n <;> rfl
  | n, p :: ps, seen, hn => by
      cases hm : c.mappingOf? p with
      | none =>
          rw [List.filterMap_cons_none hm] at hn ⊢
          rw [visit_missing hm]
          exact searchPending_visit hn
      | some m =>
          rw [List.filterMap_cons_some hm] at hn ⊢
          rw [List.length_cons] at hn
          cases n with
          | zero => omega
          | succ n =>
              have hpair := (mappingOf?_mem hm).2
              rw [searchPending, hpair]
              by_cases hp : p ∈ seen
              · rw [if_pos (by simpa using hp), visit_seen hp]
                exact searchPending_visit (by omega)
              · rw [if_neg (by simpa using hp), visit_new hp hm, List.findSome?_cons]
                cases ask m with
                | some found => rfl
                | none =>
                    -- The mapping that is visited pays for its bases.
                    have hvisit := unmetWeight_visit (·.bases.length) [] hp hm
                    have hbases := m.bases.length_filterMap_le c.mappingOf?
                    rw [← List.filterMap_append, ← visit_append]
                    refine searchPending_visit ?_
                    rw [List.filterMap_append, List.length_append]
                    rw [List.nil_append] at hvisit
                    omega
termination_by n ps => (n, ps.length)

/-- The steps that a search may take are enough for the traversal, and more make no difference. -/
theorem searchPending_preorder (m : Mapping) (more : Nat) :
    c.searchPending ask (m.bases.length + c.linkCount + 1 + more) [m] [] =
      (c.preorder m).findSome? ask := by
  have hlinks : c.unmetWeight (·.bases.length) [m.pair] ≤ c.linkCount := by
    have hall := @total_filter_le Mapping (·.bases.length) (fun _ => true)
      (fun x => !([m.pair].contains x.pair)) (fun _ _ => rfl) c.maps
    rwa [List.filter_eq_self.mpr fun _ _ => rfl] at hall
  have hbases := m.bases.length_filterMap_le c.mappingOf?
  rw [Nat.add_right_comm, searchPending, if_neg (by simp), preorder, List.findSome?_cons]
  cases ask m with
  | some found => rfl
  | none =>
      dsimp only
      rw [List.append_nil]
      exact searchPending_visit (by omega)

theorem searchBases_eq : c.searchBases ask m = (c.preorder m).findSome? ask :=
  searchPending_preorder m 0

end Search

/-! ## §3  Rules -/

section Rules

variable {name : String} {rule own : MemberRule}

theorem memberRule?_eq : c.memberRule? m name =
    ((c.preorder m).findSome? fun x => (x.ownRule? name).filter (·.isSettled)).or
      (m.ownRule? name) := by
  rw [memberRule?, searchBases_eq]

/-- A rule for a member is one of a mapping that is visited. -/
theorem memberRule?_own (h : c.memberRule? m name = some rule) :
    ∃ x ∈ c.preorder m, x.ownRule? name = some rule := by
  rw [memberRule?_eq, Option.or_eq_some_iff] at h
  rcases h with h | ⟨-, h⟩
  · obtain ⟨x, hx, hfound⟩ := List.exists_of_findSome?_eq_some h
    exact ⟨x, hx, (Option.filter_eq_some_iff.mp hfound).1⟩
  · exact ⟨m, List.mem_cons_self, h⟩

theorem name_of_memberRule? (h : c.memberRule? m name = some rule) : rule.member.name = name := by
  obtain ⟨x, -, hx⟩ := memberRule?_own h
  exact (Mapping.ownRule?_mem hx).2

/-- A member that a mapping has a rule for has one with inherited rules too. -/
theorem memberRule?_isSome (hown : own ∈ m.rules) :
    (c.memberRule? m own.member.name).isSome = true := by
  have hfind : (m.ownRule? own.member.name).isSome = true := by
    rw [Mapping.ownRule?, List.isSome_find?, List.any_eq_true]
    exact ⟨own, hown, by simp⟩
  rw [memberRule?_eq, Option.isSome_or, hfind, Bool.or_true]

/-- Inherited rules stand in the places of the mapping's own. -/
theorem allRules_names (c : Configuration) (m : Mapping) :
    (c.allRules m).map (·.member.name) = m.rules.map (·.member.name) := by
  have hname : ∀ p ∈ m.rules,
      (c.memberRule? m p.member.name).map (·.member.name) = some p.member.name := by
    intro p hp
    obtain ⟨q, hq⟩ := Option.isSome_iff_exists.mp (memberRule?_isSome (c := c) hp)
    rw [hq, Option.map_some, name_of_memberRule? hq]
  calc (c.allRules m).map (·.member.name)
      = m.rules.filterMap fun p => (c.memberRule? m p.member.name).map (·.member.name) :=
        List.map_filterMap
    _ = m.rules.filterMap fun p => some p.member.name := List.filterMap_congr hname
    _ = m.rules.map (·.member.name) := congrFun List.filterMap_eq_map _

end Rules

/-- **Rules are inherited in depth-first order.**  The first mapping of the traversal that settles
a member gives the rule for it, and its own rule if none does; the first that has a rule for a path
gives that.  No mapping is asked twice, and no bound on the steps cuts the traversal off, in
whatever circles mappings include each other.  The rules of a mapping are one for each of its own,
in their order and for the members of their names, each taken from a mapping that is visited. -/
theorem inherits_inPreorder (c : Configuration) (m : Mapping) :
    ((c.preorder m).map (·.pair)).Nodup ∧
    (∀ (α : Type) (ask : Mapping → Option α) (more : Nat),
      c.searchPending ask (m.bases.length + c.linkCount + 1 + more) [m] [] =
        (c.preorder m).findSome? ask) ∧
    (∀ name, c.memberRule? m name =
      ((c.preorder m).findSome? fun x => (x.ownRule? name).filter (·.isSettled)).or
        (m.ownRule? name)) ∧
    (∀ path, c.pathRule? m path = (c.preorder m).findSome? (·.ownPathRule? path)) ∧
    (c.allRules m).map (·.member.name) = m.rules.map (·.member.name) ∧
    ∀ p ∈ c.allRules m, ∃ x ∈ c.preorder m, p ∈ x.rules := by
  refine ⟨c.preorder_nodup m, fun _ _ => searchPending_preorder m, fun _ => memberRule?_eq,
    fun _ => searchBases_eq, c.allRules_names m, fun p hp => ?_⟩
  obtain ⟨own, -, hrule⟩ := List.mem_filterMap.mp hp
  obtain ⟨x, hx, hfound⟩ := memberRule?_own hrule
  exact ⟨x, hx, (Mapping.ownRule?_mem hfound).1⟩

/-! ### A member of two types

The derived model has a number where its base has a text, and takes the rule for the text. -/

namespace Keyed

def data : Ty := .declared 0

def derivedData : Ty := .declared 1

def model : Ty := .declared 2

def derivedModel : Ty := .declared 3

def registry : Registry :=
  { declarations := [.record "Data" none [⟨"Code", .string⟩], .record "DerivedData" (some data) [],
      .record "Model" none [⟨"Key", .string⟩],
      .record "DerivedModel" (some model) [⟨"Key", .int32⟩]] }

/-- `s => s.Code` -/
def code : Expr :=
  Registry.mkLambda [⟨0, "s", data⟩] (.member (.param ⟨0, "s", data⟩) ⟨"Code", .string⟩)

def plan : Plan :=
  ((({ types := registry : Plan }.start ⟨data, model⟩).readBy ⟨data, model⟩ "Key" (.ok code)
    ).passOnTo ⟨data, model⟩ ⟨derivedData, derivedModel⟩).start ⟨derivedData, derivedModel⟩

theorem plan_reached : Plan.Reached registry plan :=
  .start _ (.passOnTo _ _ (.readBy _ _ _ (.start _ .empty)))

end Keyed

open Keyed in
/-- A rule that is inherited is for the member of the mapping that it comes from, which may be of
another type than the member of the same name that the mapping has. -/
theorem inherits_ownMembers_fails :
    ¬ ∀ (r : Registry) (d : Plan) (id id' : Nat) (c : Configuration), Plan.Reached r d →
      d.finish id = .ok (c, id') → ∀ m ∈ c.maps,
        (c.allRules m).map (·.member) = m.rules.map (·.member) := by
  intro h
  have hplan : ∃ c id', plan.finish 1 = .ok (c, id') ∧ ∃ m ∈ c.maps,
      (c.allRules m).map (·.member) ≠ m.rules.map (·.member) := by
    refine ⟨_, _, rfl, _, List.mem_cons_of_mem _ List.mem_cons_self, ?_⟩
    decide
  obtain ⟨c, id', hfinish, m, hm, hne⟩ := hplan
  exact hne (h registry plan 1 id' c plan_reached hfinish m hm)

end Configuration

end Recast
