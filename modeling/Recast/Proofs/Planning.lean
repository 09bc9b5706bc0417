import Recast.Config.Plan
import Recast.Proofs.Reversal

/-! # The members of planned rules

The calls of a plan look up every member that they put into a rule, so the rules
of a planned mapping are rooted in its two types (`Plan.Reached.rooted`).  Filling a
mapping in makes it coherent (`Mapping.Rooted.coherent_fill`), and so does reversing it
where no two members of its destination have one name (`Mapping.Rooted.reversed`).
-/

namespace Recast

/-! ## §1  Members by convention -/

namespace Registry

variable {r : Registry}

theorem chainWithin?_isChain : ∀ {n : Nat} {source : Ty} {name : String} {chain : List Member},
    r.chainWithin? n source name = some chain → r.IsChain source chain
  | 0, _, _, _, h => by cases h
  | n + 1, source, name, chain, h => by
      rw [chainWithin?] at h
      split at h
      · rename_i m hm
        cases h
        exact ⟨by rw [name_of_member? hm]; exact hm, trivial⟩
      · split at h
        · obtain ⟨i, -, hi⟩ := List.exists_of_findSome?_eq_some h
          simp only [Option.bind_eq_bind, Option.bind_eq_some_iff,
            Option.some.injEq] at hi
          obtain ⟨first, hfirst, rest, hrest, rfl⟩ := hi
          exact ⟨by rw [name_of_member? hfirst]; exact hfirst, chainWithin?_isChain hrest⟩
        · cases h

theorem chainFor?_member {source : Ty} {name : String} {m : Member}
    (h : r.member? source name = some m) : r.chainFor? source name = some [m] := by
  rw [chainFor?, chainWithin?, h]

theorem byConvention_isChain {source : Ty} {m : Member} :
    r.IsChain source (r.byConvention source m).source := by
  simp only [byConvention]
  cases h : r.chainFor? source m.name with
  | none => trivial
  | some chain => exact chainWithin?_isChain h

/-- Members of a type that are listed are found by name. -/
theorem member?_of_find? {t : Ty} {name : String} {m : Member}
    (h : (r.members t).find? (·.name == name) = some m) : r.member? t name = some m := by
  cases hkind : r.isRecord t || r.isAnonymous t with
  | true =>
      rw [member?, if_pos hkind]
      exact h
  | false =>
      obtain ⟨hrecord, hanonymous⟩ := Bool.or_eq_false_iff.mp hkind
      have hnone : r.record? t = none := by simpa [isRecord] using hrecord
      have hredefined : r.isRedefined t = false := by
        simp only [record?] at hnone
        split at hnone
        · cases hnone
        · rename_i hfresh
          simpa [redefinition?, isRedefined] using hfresh
      have hempty : r.members t = [] := by
        cases t <;> simp_all [members, membersWithin, isAnonymous]
      rw [hempty] at h
      cases h

theorem fillMembers_find? {source : Ty} {name : String} {p : MemberRule} :
    ∀ {ms : List Member} {settled : List MemberRule},
      (r.fillMembers source settled ms).find? (·.member.name == name) = some p →
        p ∈ settled ∨ ms.find? (·.name == name) = some p.member ∧
          p = r.byConvention source p.member
  | [], _, h => .inl (List.mem_of_find?_eq_some h)
  | m :: ms, settled, h => by
      rw [fillMembers] at h
      split at h
      · rename_i q hq
        have hname : q.member.name = m.name := by simpa using List.find?_some hq
        by_cases hhere : q.member.name = name
        · rw [List.find?_cons_of_pos (by simpa using hhere)] at h
          cases h
          exact .inl (List.mem_of_find?_eq_some hq)
        · rw [List.find?_cons_of_neg (by simpa using hhere)] at h
          rcases fillMembers_find? h with hp | ⟨hm, hp⟩
          · exact .inl (List.mem_of_mem_eraseP hp)
          · rw [List.find?_cons_of_neg (by simpa [← hname] using hhere)]
            exact .inr ⟨hm, hp⟩
      · by_cases hhere : m.name = name
        · rw [List.find?_cons_of_pos (by simpa [byConvention] using hhere)] at h
          cases h
          exact .inr ⟨List.find?_cons_of_pos (by simpa using hhere), rfl⟩
        · rw [List.find?_cons_of_neg (by simpa [byConvention] using hhere)] at h
          rw [List.find?_cons_of_neg (by simpa using hhere)]
          exact fillMembers_find? h

theorem mem_fillMembers {source : Ty} {p : MemberRule} :
    ∀ {ms : List Member} {settled : List MemberRule}, p ∈ r.fillMembers source settled ms →
      p ∈ settled ∨ p.member ∈ ms ∧ p = r.byConvention source p.member
  | [], _, h => .inl h
  | m :: ms, settled, h => by
      rw [fillMembers] at h
      split at h
      · rename_i q hq
        rcases List.mem_cons.mp h with rfl | h
        · exact .inl (List.mem_of_find?_eq_some hq)
        · rcases mem_fillMembers h with hp | ⟨hm, hp⟩
          · exact .inl (List.mem_of_mem_eraseP hp)
          · exact .inr ⟨List.mem_cons_of_mem _ hm, hp⟩
      · rcases List.mem_cons.mp h with rfl | h
        · exact .inr ⟨List.mem_cons_self, rfl⟩
        · rcases mem_fillMembers h with hp | ⟨hm, hp⟩
          · exact .inl hp
          · exact .inr ⟨List.mem_cons_of_mem _ hm, hp⟩

end Registry

theorem find?_of_nodup {α β : Type} [BEq β] [LawfulBEq β] {key : α → β} {a : α} :
    ∀ {xs : List α}, (xs.map key).Nodup → a ∈ xs → xs.find? (key · == key a) = some a
  | x :: xs, hnodup, hmem => by
      obtain ⟨hx, hxs⟩ := List.nodup_cons.mp hnodup
      rcases List.mem_cons.mp hmem with rfl | hmem
      · exact List.find?_cons_of_pos (by simp)
      · have hne : key x ≠ key a := fun heq => hx (heq ▸ List.mem_map_of_mem hmem)
        rw [List.find?_cons_of_neg (by simpa using hne)]
        exact find?_of_nodup hxs hmem

/-! ## §2  Rules that are rooted in the types

Filling in and reversing keep to them. -/

/-- Every single rule holds members of the two types. -/
def Mapping.Rooted (r : Registry) (m : Mapping) : Prop :=
  ∀ p ∈ m.rules, r.member? m.destination p.member.name = some p.member ∧
    r.IsChain m.source p.source

namespace Mapping

variable {r : Registry} {m : Mapping}

/-- Filled in, a mapping populates members of its destination: those that it populated before
and the first of every other name. -/
theorem populatesMembers_fill
    (h : ∀ p ∈ m.rules, r.member? m.destination p.member.name = some p.member) :
    (r.fill m).PopulatesMembers r := by
  intro name p hp
  rcases Registry.fillMembers_find? hp with hmem | ⟨hfind, -⟩
  · rw [← (ownRule?_mem hp).2]
    exact h p hmem
  · exact Registry.member?_of_find? hfind

theorem Rooted.coherent_fill (h : m.Rooted r) : (r.fill m).Coherent r where
  member := populatesMembers_fill fun p hp => (h p hp).1
  source p hp := by
    rcases Registry.mem_fillMembers hp with hmem | ⟨-, heq⟩
    · exact (h p hmem).2
    · rw [heq]
      exact Registry.byConvention_isChain

theorem Rooted.fill (h : m.Rooted r) (hnodup : ((r.members m.destination).map (·.name)).Nodup) :
    (r.fill m).Rooted r := by
  intro p hp
  rcases Registry.mem_fillMembers hp with hmem | ⟨hmem, heq⟩
  · exact h p hmem
  · refine ⟨Registry.member?_of_find? (find?_of_nodup hnodup hmem), ?_⟩
    rw [heq]
    exact Registry.byConvention_isChain

/-- The reverse populates what was read, which a coherent mapping finds in its source. -/
theorem Coherent.member?_reversed (h : m.Coherent r) (id : Nat) :
    ∀ p ∈ (m.reversed id).rules, r.member? m.source p.member.name = some p.member := by
  intro p hp
  obtain ⟨q, hq, -, -, hsource, -⟩ := mem_rules_reversed.mp hp
  have hchain := h.source q hq
  rw [hsource] at hchain
  exact hchain.1

theorem Rooted.reversed (h : m.Rooted r) (id : Nat) : (m.reversed id).Rooted r := by
  intro p hp
  obtain ⟨q, hq, -, -, hsource, hp⟩ := mem_rules_reversed.mp hp
  obtain ⟨hmember, hchain⟩ := h q hq
  rw [hsource] at hchain
  rw [hp]
  exact ⟨hchain.1, hmember, trivial⟩

end Mapping

/-! ## §3  The calls of a plan -/

namespace Plan

/-- All planned mappings are rooted. -/
def Rooted (d : Plan) : Prop := ∀ x ∈ d.planned, x.map.Rooted d.types

/-- The plans that calls lead to. -/
inductive Reached (r : Registry) : Plan → Prop where
  | empty : Reached r { types := r }
  | start {d : Plan} (p : TyPair) : Reached r d → Reached r (d.start p)
  | readBy {d : Plan} (p : TyPair) (name : String) (custom : Checked Expr) :
      Reached r d → Reached r (d.readBy p name custom)
  | readFrom {d : Plan} (p : TyPair) (name : String) (path : List String) :
      Reached r d → Reached r (d.readFrom p name path)
  | leaveOut {d : Plan} (p : TyPair) (name : String) :
      Reached r d → Reached r (d.leaveOut p name)
  | readPathBy {d : Plan} (p : TyPair) (path : List String) (custom : Checked Expr) :
      Reached r d → Reached r (d.readPathBy p path custom)
  | inheritFrom {d : Plan} (p base : TyPair) : Reached r d → Reached r (d.inheritFrom p base)
  | passOnTo {d : Plan} (p derived : TyPair) : Reached r d → Reached r (d.passOnTo p derived)
  | alsoReverse {d : Plan} (p : TyPair) : Reached r d → Reached r (d.alsoReverse p)

variable {d : Plan}

theorem types_start (p : TyPair) : (d.start p).types = d.types := by
  unfold start
  split <;> rfl

theorem Rooted.start (h : d.Rooted) (p : TyPair) : (d.start p).Rooted := by
  unfold Plan.start
  split
  · exact h
  · intro x hx
    rcases List.mem_append.mp hx with hx | hx
    · exact h x hx
    · simp only [List.mem_singleton] at hx
      subst hx
      intro q hq
      cases hq

theorem Rooted.update (h : d.Rooted) (p : TyPair) {f : PlannedMapping → PlannedMapping}
    (hf : ∀ x, x.map.pair = p → x.map.Rooted d.types → (f x).map.Rooted d.types) :
    (d.update p f).Rooted := by
  intro x hx
  simp only [Plan.update, List.mem_map] at hx
  obtain ⟨y, hy, rfl⟩ := hx
  have hrooted := h.start p y hy
  simp only [Plan.update, types_start] at hrooted ⊢
  split
  · rename_i hpair
    exact hf y (by simpa using hpair) hrooted
  · exact hrooted

theorem types_update (p : TyPair) (f : PlannedMapping → PlannedMapping) :
    (d.update p f).types = d.types := types_start p

theorem Rooted.putRule (h : d.Rooted) {p : TyPair} {rule : MemberRule}
    (hmember : d.types.member? p.destination rule.member.name = some rule.member)
    (hsource : d.types.IsChain p.source rule.source) : (d.putRule p rule).Rooted := by
  refine h.update p fun x hpair hx q hq => ?_
  simp only [List.mem_append, List.mem_filter, List.mem_singleton] at hq
  rcases hq with ⟨hq, -⟩ | rfl
  · exact hx q hq
  · obtain rfl : p = x.map.pair := hpair.symm
    exact ⟨hmember, hsource⟩

theorem plainPath_isChain : ∀ {names : List String} {t : Ty} {ms : List Member},
    d.plainPath t names = .ok ms → d.types.IsChain t ms
  | [], _, _, h => by
      cases h
      trivial
  | name :: names, t, ms, h => by
      simp only [plainPath, Checked.bind_eq_ok, Checked.pure_eq_ok] at h
      obtain ⟨m, hm, rest, hrest, rfl⟩ := h
      have hmember : d.types.member? t name = some m := by
        unfold plainMember at hm
        split at hm
        · cases hm
          assumption
        · cases hm
      exact ⟨by rw [Registry.name_of_member? hmember]; exact hmember, plainPath_isChain hrest⟩

theorem Rooted.attempt (h : d.Rooted) {p : TyPair} {rule : Checked MemberRule}
    (hrule : ∀ q, rule = .ok q → d.types.member? p.destination q.member.name = some q.member ∧
      d.types.IsChain p.source q.source) : (d.attempt p rule).Rooted := by
  cases rule with
  | error e => exact h
  | ok q => exact h.putRule (hrule q rfl).1 (hrule q rfl).2

theorem types_attempt (p : TyPair) (rule : Checked MemberRule) :
    (d.attempt p rule).types = d.types := by
  cases rule with
  | error e => rfl
  | ok q => exact types_update p _

theorem Rooted.readBy (h : d.Rooted) (p : TyPair) (name : String) (custom : Checked Expr) :
    (d.readBy p name custom).Rooted := by
  refine h.attempt fun q hq => ?_
  simp only [Checked.bind_eq_ok, Registry.requireMember_eq_ok, Checked.pure_eq_ok] at hq
  obtain ⟨m, hm, _, _, rfl⟩ := hq
  exact ⟨by rw [Registry.name_of_member? hm]; exact hm, trivial⟩

theorem Rooted.readFrom (h : d.Rooted) (p : TyPair) (name : String) (path : List String) :
    (d.readFrom p name path).Rooted := by
  refine h.attempt fun q hq => ?_
  simp only [Checked.bind_eq_ok, Registry.requireMember_eq_ok, Checked.pure_eq_ok] at hq
  obtain ⟨m, hm, chain, hchain, rfl⟩ := hq
  exact ⟨by rw [Registry.name_of_member? hm]; exact hm, plainPath_isChain hchain⟩

theorem Rooted.leaveOut (h : d.Rooted) (p : TyPair) (name : String) :
    (d.leaveOut p name).Rooted := by
  refine h.attempt fun q hq => ?_
  simp only [Checked.bind_eq_ok, Registry.requireMember_eq_ok, Checked.pure_eq_ok] at hq
  obtain ⟨m, hm, rfl⟩ := hq
  exact ⟨by rw [Registry.name_of_member? hm]; exact hm, trivial⟩

theorem readPathBy_eq (p : TyPair) (path : List String) (custom : Checked Expr) :
    (∃ rule, d.readPathBy p path custom = d.putPathRule p rule) ∨
      ∃ e, d.readPathBy p path custom = d.fail e := by
  unfold readPathBy
  dsimp only
  split
  · exact .inl ⟨_, rfl⟩
  · exact .inr ⟨_, rfl⟩

/-- Every call keeps to the types of the plan and to rooted rules. -/
theorem Reached.rooted {r : Registry} {d : Plan} (h : Reached r d) : d.types = r ∧ d.Rooted := by
  induction h with
  | empty => exact ⟨rfl, fun x hx => by cases hx⟩
  | start p _ ih => exact ⟨(types_start p).trans ih.1, ih.2.start p⟩
  | readBy p name custom _ ih =>
      exact ⟨(types_attempt p _).trans ih.1, ih.2.readBy p name custom⟩
  | readFrom p name path _ ih =>
      exact ⟨(types_attempt p _).trans ih.1, ih.2.readFrom p name path⟩
  | leaveOut p name _ ih => exact ⟨(types_attempt p _).trans ih.1, ih.2.leaveOut p name⟩
  | readPathBy p path custom _ ih =>
      rcases readPathBy_eq p path custom with ⟨rule, heq⟩ | ⟨e, heq⟩
      · rw [heq]
        exact ⟨(types_update p _).trans ih.1, ih.2.update p fun _ _ hx => hx⟩
      · rw [heq]
        exact ih
  | inheritFrom p base _ ih =>
      exact ⟨(types_update p _).trans ih.1, ih.2.update p fun _ _ hx => hx⟩
  | passOnTo p derived _ ih =>
      exact ⟨(types_update p _).trans ih.1, ih.2.update p fun _ _ hx => hx⟩
  | alsoReverse p _ ih =>
      exact ⟨(types_update p _).trans ih.1, ih.2.update p fun _ _ hx => hx⟩

end Plan

end Recast
