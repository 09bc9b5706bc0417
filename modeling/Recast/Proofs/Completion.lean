import Recast.Proofs.PlanCalls

/-! # Completed mappings

A plan that nothing failed in ends with a rule for every member of every
destination record, in the order of the members: the rule that was asked for last,
or else the one by convention.

- `Registry.ruleAt` — the rule for a member at its place.
- `Registry.fillMembers_getElem?` — filling in place by place.
- `Plan.finish_completes` — the completed mappings, and calls for different members
  in either order.
-/

namespace Recast

/-! ## §1  Filling in -/

namespace Registry

/-- The members of the type are listed: it is a record, declared or anonymous. -/
def ListsMembers (r : Registry) (t : Ty) : Prop := (r.isRecord t || r.isAnonymous t) = true

instance (r : Registry) (t : Ty) : Decidable (r.ListsMembers t) :=
  inferInstanceAs (Decidable (_ = true))

/-- The rule for the member at a place: the one that is settled for its name, if it is the first
member of its name, or the one by convention. -/
def ruleAt (r : Registry) (source : Ty) (settled : String → Option MemberRule)
    (ms : List Member) (i : Nat) (m : Member) : MemberRule :=
  if m.name ∈ (ms.take i).map (·.name) then r.byConvention source m
  else (settled m.name).getD (r.byConvention source m)

variable {r : Registry} {source t : Ty} {name : String} {m : Member} {ms : List Member}
  {settled settled' : List MemberRule}

theorem ListsMembers.member?_eq (h : r.ListsMembers t) (name : String) :
    r.member? t name = (r.members t).find? (·.name == name) := by
  unfold member?
  exact if_pos h

theorem eraseP_eq_filter {α β : Type} [BEq β] [LawfulBEq β] {key : α → β} {k : β} :
    ∀ {xs : List α}, (xs.map key).Nodup → xs.eraseP (key · == k) = xs.filter (key · != k)
  | [], _ => rfl
  | x :: xs, h => by
      obtain ⟨hx, hxs⟩ := List.nodup_cons.mp h
      by_cases hk : key x = k
      · rw [List.eraseP_cons_of_pos (by simpa using hk),
          List.filter_cons_of_neg (by simpa using hk), eq_comm, List.filter_eq_self]
        intro y hy
        have hne : key y ≠ k := fun heq => hx (hk.trans heq.symm ▸ List.mem_map_of_mem hy)
        simpa using hne
      · rw [List.eraseP_cons_of_neg (by simpa using hk),
          List.filter_cons_of_pos (by simpa using hk), eraseP_eq_filter hxs]

/-- A member takes the rule of its name away. -/
theorem fillMembers_cons (h : (settled.map (·.member.name)).Nodup) :
    r.fillMembers source settled (m :: ms) =
      (settled.find? (·.member.name == m.name)).getD (r.byConvention source m) ::
        r.fillMembers source (settled.filter (·.member.name != m.name)) ms := by
  rw [fillMembers]
  cases hfind : settled.find? (·.member.name == m.name) with
  | some p => rw [Option.getD_some, eraseP_eq_filter h]
  | none =>
      rw [Option.getD_none, List.filter_eq_self.mpr]
      intro p hp
      have hne := List.find?_eq_none.mp hfind p hp
      simpa using hne

/-- Filling in gives one rule for every member, if all that is settled is for some of them. -/
theorem fillMembers_getElem? : ∀ {ms : List Member} {settled : List MemberRule},
    (settled.map (·.member.name)).Nodup →
      (∀ p ∈ settled, p.member.name ∈ ms.map (·.name)) → ∀ i : Nat,
        (r.fillMembers source settled ms)[i]? = ms[i]?.map
          (r.ruleAt source (fun name => settled.find? (·.member.name == name)) ms i)
  | [], settled, _, hnames, i => by
      obtain rfl : settled = [] := List.eq_nil_iff_forall_not_mem.mpr fun p hp => by
        simpa using hnames p hp
      rfl
  | m :: ms, settled, hnodup, hnames, 0 => by
      rw [fillMembers_cons hnodup]
      simp [ruleAt]
  | m :: ms, settled, hnodup, hnames, i + 1 => by
      have hrest : ∀ p ∈ settled.filter (·.member.name != m.name),
          p.member.name ∈ ms.map (·.name) := by
        intro p hp
        obtain ⟨hp, hne⟩ := List.mem_filter.mp hp
        exact List.mem_of_ne_of_mem (by simpa using hne) (hnames p hp)
      rw [fillMembers_cons hnodup, List.getElem?_cons_succ, List.getElem?_cons_succ,
        fillMembers_getElem? (hnodup.sublist (List.filter_sublist.map _)) hrest i]
      refine congrArg (ms[i]?.map ·) (funext fun m' => ?_)
      simp only [ruleAt, List.take_succ_cons, List.map_cons, List.mem_cons,
        PlannedMapping.find?_filter_ne (fun p : MemberRule => p.member.name)]
      by_cases hname : m'.name = m.name
      · rw [if_pos hname.symm, Option.getD_none, ite_self, if_pos (.inl hname)]
      · rw [if_neg (Ne.symm hname)]
        simp only [hname, false_or]

theorem find?_eq_some_iff_of_nodup {p : MemberRule} (h : (settled.map (·.member.name)).Nodup) :
    settled.find? (·.member.name == name) = some p ↔ p ∈ settled ∧ p.member.name = name := by
  constructor
  · intro hp
    exact ⟨List.mem_of_find?_eq_some hp, by simpa using List.find?_some hp⟩
  · rintro ⟨hp, rfl⟩
    exact find?_of_nodup h hp

/-- The order of what is settled makes no difference. -/
theorem fillMembers_perm (hperm : settled.Perm settled')
    (hnodup : (settled.map (·.member.name)).Nodup)
    (hnames : ∀ p ∈ settled, p.member.name ∈ ms.map (·.name)) :
    r.fillMembers source settled ms = r.fillMembers source settled' ms := by
  have hnodup' : (settled'.map (·.member.name)).Nodup := (hperm.map _).nodup_iff.mp hnodup
  have hfind : ∀ name, settled.find? (·.member.name == name) =
      settled'.find? (·.member.name == name) := by
    intro name
    refine Option.ext fun p => ?_
    rw [find?_eq_some_iff_of_nodup hnodup, find?_eq_some_iff_of_nodup hnodup', hperm.mem_iff]
  refine List.ext_getElem? fun i => ?_
  rw [fillMembers_getElem? hnodup hnames,
    fillMembers_getElem? hnodup' fun p hp => hnames p (hperm.mem_iff.mpr hp)]
  simp only [hfind]

theorem find?_of_first : ∀ {ms : List Member} {i : Nat} {m : Member}, ms[i]? = some m →
    m.name ∉ (ms.take i).map (·.name) → ms.find? (·.name == m.name) = some m
  | m' :: ms, 0, m, hm, _ => by
      obtain rfl := Option.some.inj hm
      exact List.find?_cons_of_pos (by simp)
  | m' :: ms, i + 1, m, hm, hfirst => by
      rw [List.take_succ_cons, List.map_cons, List.mem_cons, not_or] at hfirst
      rw [List.find?_cons_of_neg (by simpa using Ne.symm hfirst.1)]
      exact find?_of_first hm hfirst.2

end Registry

/-! ## §2  Completed mappings -/

namespace Plan

variable {r : Registry} {calls : List Call} {x y : PlannedMapping} {p : TyPair} {name : String}

/-- What is settled is settled for members that are there. -/
theorem names_of_rooted (hfields : r.ListsMembers x.map.destination) (h : x.map.Rooted r) :
    ∀ p ∈ x.map.rules, p.member.name ∈ (r.members x.map.destination).map (·.name) := by
  intro p hp
  have hmember := (h p hp).1
  rw [hfields.member?_eq] at hmember
  exact List.mem_map.mpr ⟨_, List.mem_of_find?_eq_some hmember, rfl⟩

/-- The rules of a filled mapping are one for each member, in their order. -/
theorem rules_fill (hfields : r.ListsMembers x.map.destination) (h : x.map.Rooted r)
    (hdistinct : x.Distinct) (i : Nat) :
    (r.fill x.map).rules[i]? = (r.members x.map.destination)[i]?.map
      (r.ruleAt x.map.source x.map.ownRule? (r.members x.map.destination) i) :=
  Registry.fillMembers_getElem? hdistinct.rules (names_of_rooted hfields h) i

theorem members_fill (hfields : r.ListsMembers x.map.destination) (h : x.map.Rooted r)
    (hdistinct : x.Distinct) :
    (r.fill x.map).rules.map (·.member) = r.members x.map.destination := by
  refine List.ext_getElem? fun i => ?_
  rw [List.getElem?_map, rules_fill hfields h hdistinct]
  cases hm : (r.members x.map.destination)[i]? with
  | none => rfl
  | some m =>
      rw [Option.map_some, Option.map_some, Registry.ruleAt]
      split
      · rfl
      · rename_i hfirst
        cases hown : x.map.ownRule? m.name with
        | none => rfl
        | some rule =>
            obtain ⟨hrule, hname⟩ := Mapping.ownRule?_mem hown
            have hmember := (h rule hrule).1
            rw [hfields.member?_eq, hname, Registry.find?_of_first hm hfirst] at hmember
            exact congrArg some (Option.some.inj hmember).symm

/-! ## §3  Calls for different members -/

/-- The member of a pair that the call gives a rule for. -/
def Call.about? : Call → Option (TyPair × String)
  | .readBy p name _ | .readFrom p name _ | .leaveOut p name => some (p, name)
  | _ => none

theorem Call.effect_about {call : Call} {f : PlannedMapping → PlannedMapping}
    (h : call.effect r = .ok f) (habout : call.about? = some (p, name)) :
    call.pair = p ∧ ∃ rule, rule.member.name = name ∧ f = (·.withRule rule) := by
  cases call with
  | readBy q name' custom | readFrom q name' path | leaveOut q name' =>
      cases habout
      rcases effect_ok h with ⟨rule, hasks, rfl⟩ | ⟨hasks, -⟩
      · simp only [asksFor, Option.some.injEq, Checked.bind_eq_ok, Registry.requireMember_eq_ok,
          Checked.pure_eq_ok] at hasks
        obtain ⟨m, hm, hrest⟩ := hasks
        have hrule : rule.member = m := by grind
        exact ⟨rfl, rule, hrule ▸ Registry.name_of_member? hm, rfl⟩
      · cases hasks
  | _ => cases habout

/-- The same mapping, or one whose rules are in another order and will be put into that of the
members. -/
def Alike (r : Registry) (x y : PlannedMapping) : Prop :=
  x = y ∨ r.ListsMembers x.map.destination ∧
    ∃ rules, y = x.setRules rules ∧ x.map.rules.Perm rules

theorem Alike.pair (h : Alike r x y) : x.pair = y.pair := by
  rcases h with rfl | ⟨-, rules, rfl, -⟩ <;> rfl

theorem Alike.reverse (h : Alike r x y) : x.reverse = y.reverse := by
  rcases h with rfl | ⟨-, rules, rfl, -⟩ <;> rfl

theorem Alike.effect {call : Call} {f : PlannedMapping → PlannedMapping}
    (hf : call.effect r = .ok f) (h : Alike r x y) : Alike r (f x) (f y) := by
  rcases h with rfl | ⟨hfields, rules, rfl, hperm⟩
  · exact .inl rfl
  · have hdestination : (f x).map.destination = x.map.destination :=
      congrArg TyPair.destination (Call.effect_pair hf)
    refine .inr ⟨hdestination ▸ hfields, ?_⟩
    rcases Call.effect_ok hf with ⟨rule, -, rfl⟩ | ⟨-, ⟨path, rfl⟩ | hsame⟩
    · exact ⟨_, rfl, (hperm.filter _).append_right [rule]⟩
    · exact ⟨rules, rfl, hperm⟩
    · obtain ⟨-, hrules, -, hcommute⟩ := hsame x
      exact ⟨rules, hcommute rules, hrules ▸ hperm⟩

/-- Mappings that are alike are completed alike. -/
theorem Alike.fill (h : Alike r x y) (hrooted : x.map.Rooted r) (hdistinct : x.Distinct) :
    r.fill x.map = r.fill y.map := by
  rcases h with rfl | ⟨hfields, rules, rfl, hperm⟩
  · rfl
  · have hrules : r.fillMembers x.map.source x.map.rules (r.members x.map.destination) =
        r.fillMembers x.map.source rules (r.members x.map.destination) :=
      Registry.fillMembers_perm hperm hdistinct.rules (names_of_rooted hfields hrooted)
    unfold Registry.fill
    rw [hrules]
    rfl

/-- Lists whose members correspond are mapped to the same. -/
theorem map_eq_map_of_forall₂ {α β : Type} {R : α → α → Prop} {key : α → β} :
    ∀ {xs ys : List α}, List.Forall₂ R xs ys → (∀ x ∈ xs, ∀ y, R x y → key x = key y) →
      xs.map key = ys.map key
  | [], _, .nil, _ => rfl
  | _ :: _, _, .cons hxy hrest, hkey => by
      rw [List.map_cons, List.map_cons, hkey _ List.mem_cons_self _ hxy,
        map_eq_map_of_forall₂ hrest fun x hx => hkey x (List.mem_cons_of_mem _ hx)]

/-- The plans differ in the order of rules alone. -/
structure Match (r : Registry) (d d' : Plan) : Prop where
  types : d.types = r ∧ d'.types = r
  errors : d.errors = d'.errors
  planned : List.Forall₂ (Alike r) d.planned d'.planned

variable {d d' : Plan} {f g : PlannedMapping → PlannedMapping}

theorem Match.pairs (h : Match r d d') : d.planned.map (·.pair) = d'.planned.map (·.pair) :=
  map_eq_map_of_forall₂ h.planned fun _ _ _ hxy => hxy.pair

theorem Match.start (h : Match r d d') (p : TyPair) : Match r (d.start p) (d'.start p) where
  types := ⟨(types_start p).trans h.types.1, (types_start p).trans h.types.2⟩
  errors := by
    rw [errors_start, errors_start]
    exact h.errors
  planned := by
    rw [planned_start, planned_start, ← h.pairs]
    split
    · exact h.planned
    · exact List.rel_append h.planned (.cons (.inl rfl) .nil)

theorem Match.apply {call : Call} (h : Match r d d') (hf : call.effect r = .ok f) :
    Match r (d.apply call) (d'.apply call) := by
  have hstart := h.start call.pair
  rw [apply_eq, apply_eq, h.types.1, h.types.2, hf]
  refine ⟨hstart.types, hstart.errors, ?_⟩
  refine List.forall₂_map_left_iff.mpr (List.forall₂_map_right_iff.mpr (hstart.planned.imp ?_))
  intro x y hxy
  have hpair : (x.map.pair == call.pair) = (y.map.pair == call.pair) :=
    congrArg (· == call.pair) hxy.pair
  rw [hpair]
  split
  · exact hxy.effect hf
  · exact hxy

theorem Match.applyAll : ∀ {calls : List Call} {d d' : Plan}, Match r d d' →
    (∀ call ∈ calls, ∃ f, call.effect r = .ok f) →
      Match r (calls.foldl Plan.apply d) (calls.foldl Plan.apply d')
  | [], _, _, h, _ => h
  | call :: calls, d, d', h, hcalls => by
      obtain ⟨f, hf⟩ := hcalls call List.mem_cons_self
      exact (h.apply hf).applyAll fun call' hcall' => hcalls call' (List.mem_cons_of_mem _ hcall')

/-- Plans that match end in the same configuration. -/
theorem Match.finish (h : Match r d d') (hrooted : ∀ x ∈ d.planned, x.map.Rooted r)
    (hdistinct : ∀ x ∈ d.planned, x.Distinct) (id : Nat) : d.finish id = d'.finish id := by
  have hdrafted : d.drafted = d'.drafted := by
    unfold drafted
    rw [h.types.1, h.types.2]
    exact map_eq_map_of_forall₂ h.planned fun x hx _ hxy =>
      hxy.fill (hrooted x hx) (hdistinct x hx)
  have hreversible : d.reversible = d'.reversible := by
    have heq : d.planned.map (fun x => (x.reverse, x.pair)) =
        d'.planned.map (fun x => (x.reverse, x.pair)) :=
      map_eq_map_of_forall₂ h.planned fun _ _ _ hxy => by rw [hxy.pair, hxy.reverse]
    have hread : ∀ d : Plan, d.reversible =
        ((d.planned.map fun x => (x.reverse, x.pair)).filter (·.1)).map (·.2) := by
      intro d
      rw [List.filter_map, List.map_map]
      rfl
    rw [hread, hread, heq]
  rw [finish_eq, finish_eq, hdrafted, hreversible, h.errors, h.types.1, h.types.2,
    addReversed_congr (h.types.1.trans h.types.2.symm)]

theorem start_of_mem (h : p ∈ d.planned.map (·.pair)) : d.start p = d := by
  have hplanned := planned_start (d := d) (p := p)
  rw [if_pos h] at hplanned
  have htypes := types_start (d := d) p
  have herrors := errors_start (d := d) p
  cases hd : d.start p
  cases d
  simp_all

theorem planned_apply {call : Call} (hd : d.types = r) (hf : call.effect r = .ok f)
    (h : call.pair ∈ d.planned.map (·.pair)) :
    d.apply call = { d with
      planned := d.planned.map fun x => if x.pair == call.pair then f x else x } := by
  subst hd
  rw [apply_eq, hf]
  dsimp only
  rw [update, start_of_mem h]
  rfl

theorem mem_pairs_apply {call : Call} (hd : d.types = r) (hf : call.effect r = .ok f) :
    p ∈ (d.apply call).planned.map (·.pair) ↔ p ∈ d.planned.map (·.pair) ∨ p = call.pair := by
  rw [apply_eq, hd, hf]
  dsimp only
  rw [pairs_update fun x => Call.effect_pair hf, mem_pairs_start]

theorem withRule_swap {x : PlannedMapping} {a b : MemberRule} (hne : a.member.name ≠ b.member.name)
    (hfields : r.ListsMembers x.map.destination) :
    Alike r ((x.withRule a).withRule b) ((x.withRule b).withRule a) := by
  refine .inr ⟨hfields, _, rfl, ?_⟩
  simp only [PlannedMapping.withRule, List.filter_append, List.filter_filter, List.filter_singleton]
  rw [bne_iff_ne.mpr hne, bne_iff_ne.mpr (Ne.symm hne), cond_true, cond_true]
  have hfilter : x.map.rules.filter (fun p => (p.member.name != b.member.name) &&
      (p.member.name != a.member.name)) = x.map.rules.filter (fun p =>
        (p.member.name != a.member.name) && (p.member.name != b.member.name)) := by
    simp only [Bool.and_comm]
  rw [hfilter, List.append_assoc, List.append_assoc]
  exact (List.Perm.swap b a []).append_left _

/-- Two calls for different members come to the same in either order, up to the order of rules. -/
theorem match_swap {a b : Call} {ka kb : TyPair × String} (hd : d.types = r)
    (ha : a.effect r = .ok f) (hb : b.effect r = .ok g)
    (haboutA : a.about? = some ka) (haboutB : b.about? = some kb) (hne : ka ≠ kb)
    (hknownA : ka.1 ∈ d.planned.map (·.pair)) (hknownB : kb.1 ∈ d.planned.map (·.pair))
    (hfields : ka.1 = kb.1 → r.ListsMembers ka.1.destination) :
    Match r ((d.apply a).apply b) ((d.apply b).apply a) := by
  obtain ⟨pa, na⟩ := ka
  obtain ⟨pb, nb⟩ := kb
  obtain ⟨rfl, ruleA, rfl, rfl⟩ := Call.effect_about ha haboutA
  obtain ⟨rfl, ruleB, rfl, rfl⟩ := Call.effect_about hb haboutB
  have htypes : ∀ {call : Call}, (d.apply call).types = r := fun {call} => by
    rw [apply_eq, hd]
    split
    · exact (types_update _ _).trans hd
    · exact hd
  have hlaterA := (mem_pairs_apply hd hb).mpr (.inl hknownA)
  have hlaterB := (mem_pairs_apply hd ha).mpr (.inl hknownB)
  rw [planned_apply htypes hb hlaterB, planned_apply htypes ha hlaterA, planned_apply hd ha hknownA,
    planned_apply hd hb hknownB]
  refine ⟨⟨hd, hd⟩, rfl, ?_⟩
  dsimp only
  rw [List.map_map, List.map_map]
  refine List.forall₂_map_left_iff.mpr (List.forall₂_map_right_iff.mpr (List.forall₂_same.mpr ?_))
  intro x _
  simp only [Function.comp_apply, beq_iff_eq]
  -- The order of the calls can be told only where both are about the mapping.
  by_cases hxa : x.pair = a.pair
  · by_cases hxb : x.pair = b.pair
    · have hab : a.pair = b.pair := hxa.symm.trans hxb
      have hnames : ruleA.member.name ≠ ruleB.member.name := fun heq => hne (by rw [hab, heq])
      have hdestination : x.map.destination = a.pair.destination :=
        congrArg TyPair.destination hxa
      rw [if_pos hxa, if_pos hxb, if_pos (show (x.withRule ruleA).pair = _ from hxb),
        if_pos (show (x.withRule ruleB).pair = _ from hxa)]
      exact withRule_swap hnames (hdestination ▸ hfields hab)
    · rw [if_pos hxa, if_neg hxb, if_neg (show (x.withRule ruleA).pair ≠ _ from hxb), if_pos hxa]
      exact .inl rfl
  · by_cases hxb : x.pair = b.pair
    · rw [if_neg hxa, if_pos hxb, if_neg (show (x.withRule ruleB).pair ≠ _ from hxa)]
      exact .inl rfl
    · rw [if_neg hxa, if_neg hxb, if_neg hxa]
      exact .inl rfl

/-! ## §4  The completed plan -/

theorem calls_commute {before after : List Call} {a b : Call} {ka kb : TyPair × String}
    (h : (run r (before ++ a :: b :: after)).errors = []) (haboutA : a.about? = some ka)
    (haboutB : b.about? = some kb) (hne : ka ≠ kb) (hknownA : ∃ call ∈ before, call.pair = ka.1)
    (hknownB : ∃ call ∈ before, call.pair = kb.1)
    (hfields : ka.1 = kb.1 → r.ListsMembers ka.1.destination) (id : Nat) :
    (run r (before ++ a :: b :: after)).finish id =
      (run r (before ++ b :: a :: after)).finish id := by
  have hcalls := run_errors_nil.mp h
  rw [List.forall_mem_append, List.forall_mem_cons, List.forall_mem_cons] at hcalls
  obtain ⟨hbefore, ⟨f, hf⟩, ⟨g, hg⟩, hafter⟩ := hcalls
  have hrecords := records_run hbefore
  have hswap := match_swap hrecords.types hf hg haboutA haboutB hne
    ((hrecords.mem_pairs _).mpr hknownA) ((hrecords.mem_pairs _).mpr hknownB) hfields
  have hmatch :
      Match r (run r (before ++ a :: b :: after)) (run r (before ++ b :: a :: after)) := by
    unfold run
    rw [List.foldl_append, List.foldl_append]
    exact hswap.applyAll hafter
  exact hmatch.finish (rooted_run r _) (records_of_errors_nil h).distinct id

/-- **A plan completes what it declares.**  A plan that no call of failed can be finished, and each
mapping that a call was about, if the members of its destination are listed, has one rule for each
of them, in their order: the one that was asked for last, or else the one by convention.  Calls
for different members of mappings that were started before can be made in either order. -/
theorem finish_completes (r : Registry) (calls : List Call) (id : Nat)
    (h : (run r calls).errors = []) :
    (∃ c id', (run r calls).finish id = .ok (c, id') ∧ (c.maps.map (·.pair)).Nodup ∧
      ∀ call ∈ calls, r.ListsMembers call.pair.destination → ∃ m, c.mappingOf? call.pair = some m ∧
        m.rules.map (·.member) = r.members call.pair.destination ∧
        ∀ i : Nat, m.rules[i]? = (r.members call.pair.destination)[i]?.map
          (r.ruleAt call.pair.source (lastRule? r calls call.pair)
            (r.members call.pair.destination) i)) ∧
    ∀ before a b after ka kb, calls = before ++ a :: b :: after →
      a.about? = some ka → b.about? = some kb → ka ≠ kb →
      (∃ call ∈ before, call.pair = ka.1) → (∃ call ∈ before, call.pair = kb.1) →
      (ka.1 = kb.1 → r.ListsMembers ka.1.destination) →
        (run r (before ++ b :: a :: after)).finish id = (run r calls).finish id := by
  constructor
  · obtain ⟨c, id', hfinish⟩ := run_finishes h id
    have hrecords := records_of_errors_nil h
    have hends := run_endsIn hfinish
    refine ⟨c, id', hfinish, hends.pairs, fun call hcall hfields => ?_⟩
    obtain ⟨x, hx, hpair⟩ := List.mem_map.mp ((hrecords.mem_pairs _).mpr ⟨call, hcall, rfl⟩)
    obtain ⟨m, hm, hcompletes⟩ := hends.completed x hx
    have hfound := hends.mappingOf? hm
    rw [hcompletes.pair, hpair] at hfound
    have hrules : m.rules = (r.fill x.map).rules := by
      rw [hcompletes, hrecords.types]
    have hlast : x.map.ownRule? = lastRule? r calls call.pair :=
      funext fun name => hpair ▸ hrecords.rule x hx name
    have hdestination : x.map.destination = call.pair.destination :=
      congrArg TyPair.destination hpair
    have hsource : x.map.source = call.pair.source := congrArg TyPair.source hpair
    have hx' := rooted_run r calls x hx
    rw [← hdestination] at hfields
    refine ⟨m, hfound, ?_⟩
    rw [hrules, ← hdestination, ← hsource, ← hlast]
    exact ⟨members_fill hfields hx' (hrecords.distinct x hx),
      rules_fill hfields hx' (hrecords.distinct x hx)⟩
  · rintro before a b after ka kb rfl haboutA haboutB hne hknownA hknownB hfields
    exact (calls_commute h haboutA haboutB hne hknownA hknownB hfields id).symm

/-! ### An order and its model

The code is left out at first and read after all; the note is matched with nothing. -/

namespace Invoice

def order : Ty := .declared 0

def model : Ty := .declared 1

def registry : Registry :=
  { declarations := [.record "Order" none [⟨"Code", .string⟩, ⟨"Total", .int32⟩],
      .record "OrderModel" none [⟨"Code", .string⟩, ⟨"Sum", .int32⟩, ⟨"Note", .string⟩]] }

def first : List Call := [.start ⟨order, model⟩, .leaveOut ⟨order, model⟩ "Code"]

def sum : Call := .readFrom ⟨order, model⟩ "Sum" ["Total"]

def code : Call := .readFrom ⟨order, model⟩ "Code" ["Code"]

end Invoice

open Invoice in
theorem finish_completes_invoice :
    (run registry (first ++ sum :: code :: [])).errors = [] ∧
    (∃ c id' m, (run registry (first ++ sum :: code :: [])).finish 0 = .ok (c, id') ∧
      c.mappingOf? ⟨order, model⟩ = some m ∧
      m.rules.map (·.member) = [⟨"Code", .string⟩, ⟨"Sum", .int32⟩, ⟨"Note", .string⟩] ∧
      m.rules[0]? = some { member := ⟨"Code", .string⟩, source := [⟨"Code", .string⟩] } ∧
      m.rules[1]? = some { member := ⟨"Sum", .int32⟩, source := [⟨"Total", .int32⟩] } ∧
      m.rules[2]? = some { member := ⟨"Note", .string⟩ }) ∧
    (run registry (first ++ code :: sum :: [])).finish 0 =
      (run registry (first ++ sum :: code :: [])).finish 0 := by
  have herrors : (run registry (first ++ sum :: code :: [])).errors = [] := by rfl
  have hfields : registry.ListsMembers model := by decide
  obtain ⟨⟨c, id', hfinish, -, hall⟩, hswap⟩ :=
    finish_completes registry (first ++ sum :: code :: []) 0 herrors
  obtain ⟨m, hm, hmembers, hrules⟩ := hall sum (by simp) hfields
  refine ⟨herrors, ⟨c, id', m, hfinish, hm, hmembers, ?_, ?_, ?_⟩, ?_⟩
  · rw [hrules 0]
    rfl
  · rw [hrules 1]
    rfl
  · rw [hrules 2]
    rfl
  · refine hswap first sum code [] _ _ rfl rfl rfl ?_ ?_ ?_ fun _ => hfields
    · decide
    · exact ⟨_, List.mem_cons_self, rfl⟩
    · exact ⟨_, List.mem_cons_self, rfl⟩

end Plan

end Recast
