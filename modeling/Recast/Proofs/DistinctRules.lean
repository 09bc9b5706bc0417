import Mathlib.Data.List.Count
import Recast.Proofs.Inheritance
import Recast.Proofs.PlanCalls
import Recast.Proofs.Reversal

/-! # Rules for different members

The calls of a plan replace rules that are there, so a planned mapping has one rule
for a member and one path rule for a path.  The reverse of a mapping is put
together from all plain rules at once: two rules that read the same chain become
two rules for the member, or two path rules for the path, that it leads to.

- `Registry.count_fillMembers` — how often a name is met after filling in.
- `Plan.finish_distinct` — when the rules of a configuration are for different members.
-/

namespace Recast

/-! ## §1  Filling in -/

namespace Registry

variable {r : Registry} {source : Ty}

/-- A name that is settled takes the place of a member, and what is settled beyond the members
stays. -/
theorem count_fillMembers (name : String) : ∀ {ms : List Member} {settled : List MemberRule},
    ((r.fillMembers source settled ms).map (·.member.name)).count name =
      max ((settled.map (·.member.name)).count name) ((ms.map (·.name)).count name)
  | [], settled => by simp [fillMembers]
  | m :: ms, settled => by
      rw [fillMembers, List.map_cons, List.count_cons]
      cases hfind : settled.find? (·.member.name == m.name) with
      | some p =>
          have hp : p.member.name = m.name := by simpa using List.find?_some hfind
          -- The rule is no longer settled for what follows, and counts for the member instead.
          have herase : (settled.eraseP (·.member.name == m.name)).map (·.member.name) =
              (settled.map (·.member.name)).erase m.name := by
            rw [List.erase_eq_eraseP', List.eraseP_map]
            rfl
          have hmem : m.name ∈ settled.map (·.member.name) :=
            List.mem_map.mpr ⟨p, List.mem_of_find?_eq_some hfind, hp⟩
          have hpos := List.count_pos_iff.mpr hmem
          dsimp only
          rw [List.map_cons, List.count_cons, count_fillMembers, herase, List.count_erase, hp]
          by_cases hname : m.name = name
          · subst hname
            simp only [beq_self_eq_true, if_true]
            omega
          · simp [hname]
      | none =>
          have hnone : (settled.map (·.member.name)).count m.name = 0 := by
            rw [List.count_eq_zero, List.mem_map]
            rintro ⟨p, hp, heq⟩
            exact absurd (by simpa using heq) (List.find?_eq_none.mp hfind p hp)
          dsimp only
          rw [List.map_cons, List.count_cons, count_fillMembers, byConvention]
          by_cases hname : m.name = name
          · subst hname
            simp only [beq_self_eq_true, if_true]
            omega
          · simp [hname]

theorem nodup_fillMembers {ms : List Member} {settled : List MemberRule} :
    ((r.fillMembers source settled ms).map (·.member.name)).Nodup ↔
      (ms.map (·.name)).Nodup ∧ (settled.map (·.member.name)).Nodup := by
  simp only [List.nodup_iff_count_le_one, count_fillMembers, Nat.max_le]
  exact ⟨fun h => ⟨fun name => (h name).2, fun name => (h name).1⟩,
    fun h name => ⟨h.2 name, h.1 name⟩⟩

end Registry

/-! ## §2  Planned configurations -/

/-- Rules are for different members, path rules for different paths, and no member is evaluated
twice. -/
structure Configuration.DistinctRules (c : Configuration) (m : Mapping) : Prop where
  rules : (m.rules.map (·.member.name)).Nodup
  paths : (m.pathRules.map (·.path)).Nodup
  effective : ((c.allRules m).map (·.member.name)).Nodup

theorem Configuration.distinctRules_iff {c : Configuration} {m : Mapping} : c.DistinctRules m ↔
    (m.rules.map (·.member.name)).Nodup ∧ (m.pathRules.map (·.path)).Nodup :=
  ⟨fun h => ⟨h.rules, h.paths⟩, fun h => ⟨h.1, h.2, by rw [allRules_names]; exact h.1⟩⟩

namespace Plan

variable {r : Registry} {calls : List Call} {c : Configuration} {m : Mapping} {id id' : Nat}

/-- **When rules are for different members.**  In a configuration that was planned, whatever the
calls were, the rules of a mapping that a call was about are for different members, and its path
rules for different paths, as long as the members of the destination have different names.  A
mapping that was added as the reverse of another one needs more: the plain rules of the other one
have to read different chains. -/
theorem finish_distinct (hfinish : (run r calls).finish id = .ok (c, id')) (hm : m ∈ c.maps) :
    c.DistinctRules m ↔ ((r.members m.destination).map (·.name)).Nodup ∧
      ((∀ call ∈ calls, call.pair ≠ m.pair) →
        ∃ f, c.mappingOf? m.pair.reversed = some f ∧ f.plainChains.Nodup) := by
  have hrecords := records_of_errors_nil (finish_ok hfinish).1
  have hends := run_endsIn hfinish
  rw [Configuration.distinctRules_iff]
  obtain ⟨x, hx, hdeclared | ⟨-, hfree, hreverses⟩⟩ := hends.origin m hm
  · have hcall : ∃ call ∈ calls, call.pair = m.pair := by
      rw [hdeclared.pair]
      exact (hrecords.mem_pairs _).mp (List.mem_map_of_mem hx)
    have hrules : (m.rules.map (·.member.name)).Nodup ↔
        ((r.members m.destination).map (·.name)).Nodup ∧
          (x.map.rules.map (·.member.name)).Nodup := by
      rw [hdeclared, hrecords.types]
      exact Registry.nodup_fillMembers
    have hpaths : m.pathRules = x.map.pathRules := by rw [hdeclared]; rfl
    obtain ⟨call, hcall, hpair⟩ := hcall
    rw [hrules, hpaths]
    exact ⟨fun h => ⟨h.1.1, fun hnone => absurd hpair (hnone call hcall)⟩,
      fun h => ⟨⟨h.1, (hrecords.distinct x hx).rules⟩, (hrecords.distinct x hx).paths⟩⟩
  · obtain ⟨f, hf, hforward⟩ := hends.completed x hx
    have hfound : c.mappingOf? m.pair.reversed = some f := by
      rw [hreverses.pair, ← hforward.pair]
      exact hends.mappingOf? hf
    have hchains : f.plainChains = (r.fill x.map).plainChains := by
      rw [hforward, hrecords.types]
      rfl
    have hnone : ∀ call ∈ calls, call.pair ≠ m.pair := by
      intro call hcall hpair
      exact hfree (hreverses.pair ▸ (hrecords.mem_pairs _).mpr ⟨call, hcall, hpair⟩)
    have hforward : (∃ f', c.mappingOf? m.pair.reversed = some f' ∧ f'.plainChains.Nodup) ↔
        (r.fill x.map).plainChains.Nodup := by
      rw [hfound, ← hchains]
      simp
    obtain ⟨n, hreverses⟩ := hreverses
    have hrules : (m.rules.map (·.member.name)).Nodup ↔
        ((r.members m.destination).map (·.name)).Nodup ∧
          (((r.fill x.map).reversed n).rules.map (·.member.name)).Nodup := by
      rw [hreverses, hrecords.types]
      exact Registry.nodup_fillMembers
    have hpaths : m.pathRules = ((r.fill x.map).reversed n).pathRules := by
      rw [hreverses, hrecords.types]
      rfl
    rw [hrules, hpaths, hforward, and_assoc, Mapping.nodup_reversed]
    exact and_congr_right fun _ => ⟨fun h _ => h, fun h => h hnone⟩

/-! ### Two members read from one

The value and the total of the destination are both read from the value of the source, so the
reverse has the value of the source twice. -/

namespace Totals

def source : Ty := .declared 0

def destination : Ty := .declared 1

def registry : Registry :=
  { declarations := [.record "Source" none [⟨"Value", .int32⟩],
      .record "Dest" none [⟨"Value", .int32⟩, ⟨"Total", .int32⟩]] }

def requests : List Call :=
  [.start ⟨source, destination⟩, .readFrom ⟨source, destination⟩ "Total" ["Value"],
    .alsoReverse ⟨source, destination⟩]

end Totals

open Totals in
/-- The mapping that was asked for has its rules for different members. -/
theorem finish_distinct_totals : ∃ c id' m, (run registry requests).finish 0 = .ok (c, id') ∧
    m ∈ c.maps ∧ m.pair = ⟨source, destination⟩ ∧ c.DistinctRules m := by
  have hplan : ∃ c id', (run registry requests).finish 0 = .ok (c, id') ∧ ∃ m ∈ c.maps,
      m.pair = ⟨source, destination⟩ ∧
        ((registry.members m.destination).map (·.name)).Nodup := by
    refine ⟨_, _, rfl, _, List.mem_cons_self, ?_⟩
    decide
  obtain ⟨c, id', hfinish, m, hm, hpair, hmembers⟩ := hplan
  have hcalled : Call.start ⟨source, destination⟩ ∈ requests := List.mem_cons_self
  exact ⟨c, id', m, hfinish, hm, hpair, (finish_distinct hfinish hm).mpr
    ⟨hmembers, fun hnone => absurd hpair.symm (hnone _ hcalled)⟩⟩

open Totals in
/-- Its reverse has not: no plan keeps the rules of every mapping for different members. -/
theorem rules_distinct_fails :
    ¬ ∀ (r : Registry) (calls : List Call) (id id' : Nat) (c : Configuration),
      (run r calls).finish id = .ok (c, id') → ∀ m ∈ c.maps,
        (m.rules.map (·.member.name)).Nodup ∧ (m.pathRules.map (·.path)).Nodup ∧
          ((c.allRules m).map (·.member.name)).Nodup := by
  intro h
  have hplan : ∃ c id', (run registry requests).finish 0 = .ok (c, id') ∧ ∃ m ∈ c.maps,
      ¬ (m.rules.map (·.member.name)).Nodup := by
    refine ⟨_, _, rfl, _, List.mem_cons_of_mem _ List.mem_cons_self, ?_⟩
    decide
  obtain ⟨c, id', hfinish, m, hm, hnot⟩ := hplan
  exact hnot (h registry requests 0 id' c hfinish m hm).1

end Plan

end Recast
