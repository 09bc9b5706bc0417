import Mathlib.Data.List.Nodup
import Mathlib.Data.List.Perm.Basic
import Recast.Config.Convention
import Recast.Proofs.PathTyping

/-! # The reverse of a mapping

The reverse of a mapping is put together from its plain rules: a rule that reads a
single member becomes a rule for that member, one that reads a longer chain becomes
a path rule.

- `MemberRule.plainChain?`, `Mapping.plainChains` — the chains that plain rules read.
- `Mapping.mem_rules_reversed`, `Mapping.mem_pathRules_reversed` — what the reverse holds.
- `Mapping.nodup_reversed` — when that is for different members and paths.
-/

namespace Recast

/-! ## §1  One rule -/

/-- The chain that a plain rule reads, by the names of its members. -/
def MemberRule.plainChain? (p : MemberRule) : Option (List String) :=
  if p.custom.isSome || p.ignored || p.source.isEmpty then none
  else some (p.source.map (·.name))

/-- The paths that a rule becomes a rule for in the other direction: the chain that it reads. -/
theorem MemberRule.paths_reversed (p : MemberRule) (parameter : Parameter) :
    ((p.reversed parameter).1.map fun q => [q.member.name]) ++
      (p.reversed parameter).2.map (·.path) = p.plainChain?.toList := by
  unfold reversed plainChain?
  by_cases hplain : (p.custom.isSome || p.ignored) = true
  · rw [if_pos hplain, if_pos (by simp [hplain])]
    rfl
  · rw [if_neg hplain]
    cases hsource : p.source with
    | nil => simp
    | cons m ms =>
        rw [if_neg (by simp [hplain])]
        cases ms <;> rfl

namespace Mapping

variable {m : Mapping} {p : MemberRule} {id : Nat}

/-- The path rule that a chain of several members becomes. -/
def backwards (m : Mapping) (p : MemberRule) (n : Nat) : PathRule :=
  ⟨p.source.map (·.name), Registry.mkLambda [⟨n, "d", m.destination⟩]
    (.member (.param ⟨n, "d", m.destination⟩) p.member)⟩

/-- What a rule becomes: nothing if it is not plain, a rule for a single member, a path rule for a
longer chain. -/
theorem reversed_eq (m : Mapping) (p : MemberRule) (n : Nat) :
    p.reversed ⟨n, "d", m.destination⟩ =
      if p.custom = none ∧ p.ignored = false then
        match p.source with
        | [] => ([], [])
        | [d] => ([{ member := d, source := [p.member] }], [])
        | _ => ([], [m.backwards p n])
      else ([], []) := by
  unfold MemberRule.reversed
  by_cases hplain : p.custom = none ∧ p.ignored = false
  · rw [if_neg (by simp [hplain]), if_pos hplain]
    match hsource : p.source with
    | [] => rfl
    | [d] => rfl
    | d :: d' :: ds => rw [backwards, hsource]
  · have hother : (p.custom.isSome || p.ignored) = true := by
      by_contra hnot
      exact hplain (by simpa using hnot)
    rw [if_pos hother, if_neg hplain]

theorem mem_reversed_fst {q : MemberRule} {n : Nat} :
    q ∈ (p.reversed ⟨n, "d", m.destination⟩).1 ↔ p.custom = none ∧ p.ignored = false ∧
      p.source = [q.member] ∧ q = { member := q.member, source := [p.member] } := by
  rw [reversed_eq]
  by_cases hplain : p.custom = none ∧ p.ignored = false
  · rw [if_pos hplain]
    match p.source with
    | [] => simp
    | [d] =>
        simp only [List.mem_singleton, hplain, true_and, List.cons.injEq, and_true]
        exact ⟨fun hq => by simp [hq], fun hq => hq.1 ▸ hq.2⟩
    | d :: d' :: ds => simp
  · rw [if_neg hplain]
    exact ⟨nofun, fun hq => absurd ⟨hq.1, hq.2.1⟩ hplain⟩

theorem mem_reversed_snd {q : PathRule} {n : Nat} :
    q ∈ (p.reversed ⟨n, "d", m.destination⟩).2 ↔ p.custom = none ∧ p.ignored = false ∧
      2 ≤ p.source.length ∧ q = m.backwards p n := by
  rw [reversed_eq]
  by_cases hplain : p.custom = none ∧ p.ignored = false
  · rw [if_pos hplain]
    match p.source with
    | [] => simp
    | [d] => simp
    | d :: d' :: ds => simp [hplain]
  · rw [if_neg hplain]
    exact ⟨nofun, fun hq => absurd ⟨hq.1, hq.2.1⟩ hplain⟩

/-! ## §2  All rules -/

theorem mem_rules_reversed {q : MemberRule} : q ∈ (m.reversed id).rules ↔
    ∃ p ∈ m.rules, p.custom = none ∧ p.ignored = false ∧ p.source = [q.member] ∧
      q = { member := q.member, source := [p.member] } := by
  simp only [Mapping.reversed, List.mem_flatMap, List.mem_map]
  constructor
  · rintro ⟨_, ⟨⟨p, i⟩, hp, rfl⟩, hq⟩
    exact ⟨p, List.fst_mem_of_mem_zipIdx hp, mem_reversed_fst.mp hq⟩
  · rintro ⟨p, hp, hq⟩
    obtain ⟨i, hi⟩ := List.getElem?_of_mem hp
    exact ⟨_, ⟨(p, i), List.mk_mem_zipIdx_iff_getElem?.mpr hi, rfl⟩, mem_reversed_fst.mpr hq⟩

theorem mem_pathRules_reversed {q : PathRule} : q ∈ (m.reversed id).pathRules ↔
    ∃ p i, m.rules[i]? = some p ∧ p.custom = none ∧ p.ignored = false ∧ 2 ≤ p.source.length ∧
      q = m.backwards p (id + i) := by
  simp only [Mapping.reversed, List.mem_flatMap, List.mem_map]
  constructor
  · rintro ⟨_, ⟨⟨p, i⟩, hp, rfl⟩, hq⟩
    exact ⟨p, i, List.mk_mem_zipIdx_iff_getElem?.mp hp, mem_reversed_snd.mp hq⟩
  · rintro ⟨p, i, hi, hq⟩
    exact ⟨_, ⟨(p, i), List.mk_mem_zipIdx_iff_getElem?.mpr hi, rfl⟩, mem_reversed_snd.mpr hq⟩

/-- The chains that the plain rules of a mapping read. -/
def plainChains (m : Mapping) : List (List String) := m.rules.filterMap (·.plainChain?)

theorem paths_reversed (m : Mapping) (id : Nat) :
    (((m.reversed id).rules.map fun q => [q.member.name]) ++
      (m.reversed id).pathRules.map (·.path)).Perm m.plainChains := by
  have hparts : m.plainChains = m.rules.zipIdx.flatMap fun x =>
      ((x.1.reversed ⟨id + x.2, "d", m.destination⟩).1.map fun q => [q.member.name]) ++
        (x.1.reversed ⟨id + x.2, "d", m.destination⟩).2.map (·.path) := by
    simp only [MemberRule.paths_reversed]
    rw [plainChains, List.filterMap_eq_flatMap_toList]
    conv_lhs => rw [← List.zipIdx_map_fst 0 m.rules, List.flatMap_map]
  rw [hparts]
  simp only [Mapping.reversed, List.map_flatMap, List.flatMap_map]
  exact List.flatMap_append_perm _ _ _

theorem nodup_reversed (m : Mapping) (id : Nat) :
    ((m.reversed id).rules.map (·.member.name)).Nodup ∧
      ((m.reversed id).pathRules.map (·.path)).Nodup ↔ m.plainChains.Nodup := by
  have hsingle : ((m.reversed id).rules.map fun q => [q.member.name]).Nodup ↔
      ((m.reversed id).rules.map (·.member.name)).Nodup := by
    have hnames := List.nodup_map_iff List.singleton_injective
      (l := (m.reversed id).rules.map (·.member.name))
    rwa [List.map_map] at hnames
  have hdisjoint : ∀ path ∈ (m.reversed id).rules.map fun q => [q.member.name],
      ∀ path' ∈ (m.reversed id).pathRules.map (·.path), path ≠ path' := by
    intro path hpath path' hpath' heq
    obtain ⟨q, -, rfl⟩ := List.mem_map.mp hpath
    obtain ⟨q', hq', rfl⟩ := List.mem_map.mp hpath'
    obtain ⟨p, i, -, -, -, hlong, rfl⟩ := mem_pathRules_reversed.mp hq'
    have hlength := congrArg List.length heq
    simp only [backwards, List.length_map, List.length_singleton] at hlength
    omega
  rw [← (m.paths_reversed id).nodup_iff, List.nodup_append, hsingle]
  exact ⟨fun h => ⟨h.1, h.2, hdisjoint⟩, fun h => ⟨h.1, h.2.1⟩⟩

/-- Applied to a parameter, the path rule accesses the member. -/
theorem betaReduce_backwards {r : Registry} {q : Parameter} {n : Nat} (hq : q.ty = m.destination) :
    r.betaReduce (m.backwards p n).custom (.param q) = .ok (.member (.param q) p.member) := by
  have hfits : r.isAssignable (Expr.param q).ty m.destination = true := by
    rw [← hq]
    exact r.isAssignable_refl _
  rw [backwards, Registry.betaReduce]
  dsimp only [Registry.mkLambda, Expr.lambdaParts?]
  rw [Registry.fitArgument, if_pos hfits]
  show Except.ok (Expr.substitute n (.param q) _) = _
  simp [Expr.substitute]

end Mapping

end Recast
