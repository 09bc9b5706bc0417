import Recast.Proofs.Completion
import Recast.Proofs.Conformance
import Recast.Proofs.Inheritance

/-! # Mapped records are complete

A record that is mapped gets a field for every rule of its mapping, and a mapping of
a plan has a rule for every member of its destination.  What the rules say, and
what else the source holds, makes no difference to which fields there are.

- `Registry.fieldNames` — the fields of a record type.
- `Plan.names_rules` — what the rules of a planned mapping are for.
- `Configuration.record_complete` — which fields a mapped record has.
- `Configuration.list_complete` — what a list is mapped to.
- `Configuration.mapped_complete` — both, for the mappings of a plan.
-/

namespace Recast

/-! ## §1  The fields of a record -/

theorem eraseDups_of_nodup {α : Type} [BEq α] [LawfulBEq α] : ∀ {xs : List α}, xs.Nodup →
    xs.eraseDups = xs
  | [], _ => rfl
  | x :: xs, h => by
      obtain ⟨hx, hxs⟩ := List.nodup_cons.mp h
      have hfilter : xs.filter (fun y => !y == x) = xs :=
        List.filter_eq_self.mpr fun y hy => by simpa using ne_of_mem_of_not_mem hy hx
      rw [List.eraseDups_cons, hfilter, eraseDups_of_nodup hxs]

theorem eraseDups_append_of_subset {α : Type} [BEq α] [LawfulBEq α] {xs ys : List α}
    (h : ∀ y ∈ ys, y ∈ xs) : (xs ++ ys).eraseDups = xs.eraseDups := by
  have hys : ys.removeAll xs = [] := by simpa [List.removeAll] using h
  rw [List.eraseDups_append, hys, List.eraseDups_nil, List.append_nil]

namespace Registry

/-- The fields of a record of the type, in their order.  A name that several members have stands
once, where the first of them does. -/
def fieldNames (r : Registry) (t : Ty) : List String := (r.memberNames t).eraseDups

variable {r : Registry} {t : Ty}

theorem fieldNames_of_nodup (h : (r.memberNames t).Nodup) : r.fieldNames t = r.memberNames t :=
  eraseDups_of_nodup h

theorem ListsMembers.isScalar (h : r.ListsMembers t) : r.isScalar t = false := by
  rcases Bool.or_eq_true_iff.mp h with hrecord | hanonymous
  · exact isScalar_of_record hrecord
  · cases t <;> simp_all [isAnonymous, isScalar, isLiteral, literal?, stripNullable, underlying?,
      isEnum, variants?, declaration?]

end Registry

/-! ## §2  What rules are for -/

namespace Registry

variable {r : Registry} {source : Ty}

/-- Filled rules are for the members, in their order, and then for what is settled beyond them. -/
theorem names_fillMembers : ∀ (ms : List Member) (settled : List MemberRule), ∃ rest,
    (r.fillMembers source settled ms).map (·.member.name) = ms.map (·.name) ++ rest ∧
      ∀ name ∈ rest, name ∈ settled.map (·.member.name)
  | [], settled => ⟨_, rfl, fun _ => id⟩
  | m :: ms, settled => by
      rw [fillMembers]
      cases hfind : settled.find? (·.member.name == m.name) with
      | some p =>
          have hp : p.member.name = m.name := by simpa using List.find?_some hfind
          obtain ⟨rest, hrest, hsettled⟩ :=
            names_fillMembers ms (settled.eraseP (·.member.name == m.name))
          refine ⟨rest, by simp [hp, hrest], fun name hname => ?_⟩
          exact (List.eraseP_sublist.map _).subset (hsettled name hname)
      | none =>
          obtain ⟨rest, hrest, hsettled⟩ := names_fillMembers ms settled
          exact ⟨rest, by simp [hrest, byConvention], hsettled⟩

end Registry

namespace Mapping

variable {r : Registry} {m : Mapping} {id : Nat}

/-- Filling in completes rules that are for members of the destination. -/
theorem names_fill (h : ∀ p ∈ m.rules, p.member.name ∈ r.memberNames m.destination) :
    ((r.fill m).rules.map (·.member.name)).eraseDups = r.fieldNames m.destination := by
  obtain ⟨rest, hrest, hsettled⟩ :=
    @Registry.names_fillMembers r m.source (r.members m.destination) m.rules
  have hnames : ∀ name ∈ rest, name ∈ r.memberNames m.destination := by
    intro name hname
    obtain ⟨p, hp, rfl⟩ := List.mem_map.mp (hsettled name hname)
    exact h p hp
  exact (congrArg List.eraseDups hrest).trans (eraseDups_append_of_subset hnames)

/-- The rules of the reverse are for members of the source. -/
theorem Rooted.names_reversed (h : m.Rooted r) (hfields : r.ListsMembers m.source) :
    ∀ p ∈ ((r.fill m).reversed id).rules, p.member.name ∈ r.memberNames m.source := by
  intro p hp
  obtain ⟨q, hq, -, -, hsource, -⟩ := mem_rules_reversed.mp hp
  have hchain : r.IsChain m.source q.source := by
    rcases Registry.mem_fillMembers hq with hq | ⟨-, hq⟩
    · exact (h q hq).2
    · rw [hq]
      exact Registry.byConvention_isChain
  rw [hsource] at hchain
  have hmember := hchain.1
  rw [hfields.member?_eq] at hmember
  exact List.mem_map_of_mem (List.mem_of_find?_eq_some hmember)

end Mapping

namespace Plan

variable {r : Registry} {calls : List Call} {c : Configuration} {m : Mapping} {id id' : Nat}

/-- Every mapping of a plan, asked for or reversed, has rules for all members of its
destination and for nothing else. -/
theorem names_rules (hfinish : (run r calls).finish id = .ok (c, id')) (hm : m ∈ c.maps)
    (hfields : r.ListsMembers m.destination) :
    (m.rules.map (·.member.name)).eraseDups = r.fieldNames m.destination := by
  have hrecords := records_of_errors_nil (finish_ok hfinish).1
  obtain ⟨x, hx, hdeclared | ⟨-, -, n, hreverses⟩⟩ :=
    (run_endsIn hfinish).origin m hm
  · rw [hrecords.types] at hdeclared
    rw [hdeclared] at hfields ⊢
    exact Mapping.names_fill (names_of_rooted hfields (rooted_run r calls x hx))
  · rw [hrecords.types] at hreverses
    rw [hreverses] at hfields ⊢
    exact Mapping.names_fill ((rooted_run r calls x hx).names_reversed hfields)

end Plan

/-! ## §3  Records -/

theorem Value.names_putField {fields : List (String × Value)} {name : String} {v : Value} :
    (putField fields name v).map (·.1) =
      if name ∈ fields.map (·.1) then fields.map (·.1) else fields.map (·.1) ++ [name] := by
  have hany : fields.any (·.1 == name) = true ↔ name ∈ fields.map (·.1) := by
    simp
  unfold putField
  by_cases hname : name ∈ fields.map (·.1)
  · rw [if_pos (hany.mpr hname), if_pos hname, List.map_map]
    refine List.map_congr_left fun f _ => ?_
    by_cases hf : f.1 = name
    · simp [hf]
    · simp [hf]
  · rw [if_neg (mt hany.mp hname), if_neg hname, List.map_append]
    rfl

namespace Configuration

variable {c : Configuration} {n : Nat} {v w : Value} {s t : Ty}

/-- Whatever a rule gives, it gives it to the field of its member. -/
theorem names_ruleValues {f : ValueMapping} : ∀ {ps : List MemberRule}
    {done fields : List (String × Value)} {names : List String},
    done.map (·.1) = names.eraseDups → c.ruleValues f s v done ps = .ok fields →
      fields.map (·.1) = (names ++ ps.map (·.member.name)).eraseDups
  | [], _, _, _, hdone, h => by
      cases h
      rw [hdone, List.map_nil, List.append_nil]
  | p :: ps, done, fields, names, hdone, h => by
      simp only [ruleValues, Checked.bind_eq_ok] at h
      obtain ⟨u, -, h⟩ := h
      have hput : (Value.putField done p.member.name u).map (·.1) =
          (names ++ [p.member.name]).eraseDups := by
        rw [Value.names_putField, hdone, List.eraseDups_append]
        by_cases hname : p.member.name ∈ names
        · simp [hname, List.mem_eraseDups, List.removeAll]
        · simp [hname, List.mem_eraseDups, List.removeAll, List.eraseDups_cons]
      rw [names_ruleValues hput h, List.map_cons, List.append_assoc, List.singleton_append]

theorem names_recordAs {f : ValueMapping} {m : Mapping} (h : c.recordAs f m v = .ok w) :
    ∃ fields, w = .record m.destination fields ∧
      fields.map (·.1) = (m.rules.map (·.member.name)).eraseDups := by
  simp only [recordAs, Checked.bind_eq_ok] at h
  obtain ⟨fields, hfields, hw⟩ := h
  cases hw
  have hnone : ([] : List (String × Value)).map (·.1) = ([] : List String).eraseDups := rfl
  refine ⟨fields, rfl, ?_⟩
  rw [names_ruleValues hnone hfields, List.nil_append, allRules_names]

/-- A record that goes through a mapping, by its static type or by its own. -/
theorem record_complete {own : Ty} {fs : List (String × Value)} {m : Mapping}
    (hcore : c.types.core s ≠ c.types.core t)
    (hm : (c.mapping? (c.types.core s) (c.types.core t)).or
      (c.mapping? own (c.types.core t)) = some m)
    (ht : c.types.ListsMembers (c.types.core t)) (h : c.valueWithin n (.record own fs) s t = .ok w) :
    ∃ fields, w = .record (c.types.core t) fields ∧
      fields.map (·.1) = (m.rules.map (·.member.name)).eraseDups := by
  obtain ⟨k, -, hplain⟩ := valueWithin_plainAs rfl hcore h
  have hfound : c.mappingFor? (.record own fs) (c.types.core s) (c.types.core t) = some m := hm
  have hscalar := ht.isScalar
  unfold plainAs at hplain
  split at hplain
  · simp [isScalar_of_scalarAs hplain] at hscalar
  · rw [objectAs, hfound] at hplain
    rw [← mappingFor?_destination hfound]
    exact names_recordAs hplain

end Configuration

/-! ## §4  Lists -/

namespace Registry

variable {r : Registry} {s t : Ty} {w : Value}

/-- No conversion changes a list. -/
theorem castValue_list {items : List Value}
    (h : r.castValue (.list items) s t = .ok w) : w = .list items := by
  have hliteral : ∀ {l : Literal} {u : Value},
      r.toLiteral? (r.stripNullable s) l (.list items) = some u → u = .list items := by
    intro l u hu
    cases l <;> simp_all [toLiteral?, numberOf?, Literal.isIntegral, Literal.isFractional]
  unfold castValue at h
  dsimp only at h
  rw [if_neg (by simp [Value.isNull])] at h
  split at h
  · rename_i u hu
    cases h
    split at hu
    · cases hu
    · split at hu
      · exact hliteral hu
      · exact (Option.some.inj hu).symm
  · cases h

end Registry

namespace Configuration

variable {c : Configuration} {n : Nat} {w : Value} {s t : Ty}

/-- A list is text as text, and stays a list as any other scalar. -/
theorem scalarAs_list {items : List Value} (ht : c.types.literal? t ≠ some .string)
    (h : c.scalarAs (.list items) s t = .ok w) : w = .list items := by
  unfold scalarAs at h
  dsimp only at h
  rw [Registry.literal?_stripNullable] at h
  split at h
  · exact Registry.castValue_list (converted_eq_ok h)
  · split at h
    · rename_i hstring
      exact absurd hstring ht
    · split at h
      · exact Registry.castValue_list (converted_eq_ok h)
      · cases h
    · cases h

/-- A list becomes a list of what its items become, or stays as it is. -/
theorem list_complete {items : List Value} (ht : c.types.literal? t ≠ some .string)
    (h : c.valueWithin n (.list items) s t = .ok w) :
    ∃ ws, w = .list ws ∧ ws.length = items.length ∧
      (ws = items ∨ ∃ e e', c.types.element? (c.types.core s) = some e ∧
        c.types.element? (c.types.core t) = some e' ∧
          List.Forall₂ (fun v w => c.valueWithin n v e e' = .ok w) items ws) := by
  by_cases hcore : c.types.core s = c.types.core t
  · exact ⟨items, valueWithin_eq_self_of_core hcore h, rfl, .inl rfl⟩
  obtain ⟨k, hk, hplain⟩ := valueWithin_plainAs rfl hcore h
  rw [← Registry.literal?_core] at ht
  unfold plainAs at hplain
  split at hplain
  · exact ⟨items, scalarAs_list ht hplain, rfl, .inl rfl⟩
  · have hnone : c.mappingFor? (.list items) (c.types.core s) (c.types.core t) = none := rfl
    rw [objectAs, hnone] at hplain
    dsimp only at hplain
    split at hplain
    · rename_i e e' he he'
      obtain ⟨ws, hws, rfl⟩ := Checked.map_eq_ok.mp hplain
      have hitems := forall₂_itemsAs hws
      exact ⟨ws, rfl, hitems.length_eq.symm, .inr ⟨e, e', he, he',
        hitems.imp fun _ _ hitem => valueWithin_mono (Nat.le_of_lt hk) hitem⟩⟩
    · cases hplain

/-! ## §5  Records and lists -/

/-- No record that is mapped to was redefined: its members are those that it had when the mappings
were planned. -/
def KeepsMembers (c : Configuration) (r : Registry) : Prop :=
  ∀ m ∈ c.maps, c.types.ListsMembers m.destination →
    r.ListsMembers m.destination ∧ c.types.members m.destination = r.members m.destination

/-- **Mapped records are complete.**  Take the mappings of a plan, over types that may have grown
since.  A record that is mapped through one of them, found by its static type or else by its own,
becomes a record of the destination with all of its members as fields, each once and in their
order, whatever the rules say and the source holds.  A list that is mapped to anything but text
becomes a list of as many items, each in its place.  This is so at every depth. -/
theorem mapped_complete {r : Registry} {calls : List Plan.Call} {id id' : Nat}
    {c₀ c : Configuration} (hfinish : (Plan.run r calls).finish id = .ok (c₀, id'))
    (hmaps : c.maps = c₀.maps) (hkeeps : c.KeepsMembers r) :
    (∀ n own fs source target m w, c.types.core source ≠ c.types.core target →
      (c.mapping? (c.types.core source) (c.types.core target)).or
        (c.mapping? own (c.types.core target)) = some m →
      c.types.ListsMembers (c.types.core target) →
      c.valueWithin n (.record own fs) source target = .ok w →
        ∃ fields, w = .record (c.types.core target) fields ∧
          fields.map (·.1) = c.types.fieldNames (c.types.core target) ∧
          ((c.types.memberNames (c.types.core target)).Nodup →
            fields.map (·.1) = c.types.memberNames (c.types.core target))) ∧
    ∀ n items source target w, c.types.literal? target ≠ some .string →
      c.valueWithin n (.list items) source target = .ok w →
        ∃ ws, w = .list ws ∧ ws.length = items.length ∧
          (ws = items ∨ ∃ e e', c.types.element? (c.types.core source) = some e ∧
            c.types.element? (c.types.core target) = some e' ∧
              List.Forall₂ (fun v w => c.valueWithin n v e e' = .ok w) items ws) := by
  refine ⟨fun n own fs source target m w hcore hm ht h => ?_,
    fun n items source target w ht h => list_complete ht h⟩
  obtain ⟨fields, hw, hfields⟩ := record_complete hcore hm ht h
  obtain ⟨hmem, hdestination⟩ : m ∈ c.maps ∧ m.destination = c.types.core target := by
    rcases Option.or_eq_some_iff.mp hm with hm | ⟨-, hm⟩ <;>
      exact ⟨(mapping?_mem hm).1, (mapping?_mem hm).2.2⟩
  rw [← hdestination] at ht ⊢
  obtain ⟨hlists, hmembers⟩ := hkeeps m hmem ht
  have hnames : fields.map (·.1) = c.types.fieldNames m.destination := by
    rw [hfields, Plan.names_rules hfinish (hmaps ▸ hmem) hlists, Registry.fieldNames,
      Registry.fieldNames, Registry.memberNames, Registry.memberNames, hmembers]
  exact ⟨fields, hdestination ▸ hw, hnames,
    fun hnodup => hnames.trans (Registry.fieldNames_of_nodup hnodup)⟩

/-! ### Parcels and their labels

The key of a label is inherited, the sender's name comes out of the sender, the price is left out
and nothing is known of the note.  The parcel has its fields in an order of their own, and one that
parcels do not have. -/

namespace Parcel

def person : Ty := .declared 0

def parcel : Ty := .declared 1

def labelled : Ty := .declared 2

def label : Ty := .declared 3

def registry : Registry :=
  { declarations := [.record "Person" none [⟨"Name", .string⟩],
      .record "Parcel" none [⟨"Code", .string⟩, ⟨"Sender", person⟩, ⟨"Weight", .int32⟩],
      .record "Labelled" none [⟨"Key", .string⟩],
      .record "Label" (some labelled) [⟨"Code", .string⟩, ⟨"SenderName", .string⟩,
        ⟨"Grams", .int32⟩, ⟨"Price", .int32⟩, ⟨"Note", .string⟩]] }

/-- `p => p.Weight` -/
def weight : Expr :=
  Registry.mkLambda [⟨0, "p", parcel⟩] (.member (.param ⟨0, "p", parcel⟩) ⟨"Weight", .int32⟩)

def requests : List Plan.Call :=
  [.readFrom ⟨parcel, labelled⟩ "Key" ["Code"], .inheritFrom ⟨parcel, label⟩ ⟨parcel, labelled⟩,
    .readBy ⟨parcel, label⟩ "Grams" (.ok weight), .leaveOut ⟨parcel, label⟩ "Price"]

def parcelFields : List (String × Value) :=
  [("Stamp", .str "red"), ("Weight", .int 250), ("Code", .str "A1"),
    ("Sender", .record person [("Name", .str "Ann")])]

def labelFields : List (String × Value) :=
  [("Key", .str "A1"), ("Code", .str "A1"), ("SenderName", .str "Ann"), ("Grams", .int 250),
    ("Price", .null), ("Note", .null)]

end Parcel

open Parcel in
/-- A parcel that is known as an object alone is mapped by its own type. -/
theorem mapped_complete_parcel :
    ∃ c id' w ws, (Plan.run registry requests).finish 1 = .ok (c, id') ∧ c.KeepsMembers registry ∧
      c.valueAs (.record parcel parcelFields) .object label = .ok w ∧
      (∃ fields, w = .record label fields ∧
        fields.map (·.1) = ["Key", "Code", "SenderName", "Grams", "Price", "Note"]) ∧
      c.valueAs (.list [.null, .record parcel parcelFields]) (.seq .list parcel) (.array label) =
        .ok (.list ws) ∧ ws.length = 2 := by
  have hplan : ∃ c id' m, (Plan.run registry requests).finish 1 = .ok (c, id') ∧
      c.types = registry ∧ (c.mapping? .object label).or (c.mapping? parcel label) = some m ∧
      c.valueAs (.record parcel parcelFields) .object label = .ok (.record label labelFields) ∧
      c.valueAs (.list [.null, .record parcel parcelFields]) (.seq .list parcel) (.array label) =
        .ok (.list [.null, .record label labelFields]) := ⟨_, _, _, rfl, rfl, rfl, rfl, rfl⟩
  obtain ⟨c, id', m, hfinish, htypes, hm, hrecord, hlist⟩ := hplan
  have hkeeps : c.KeepsMembers registry := fun _ _ h => htypes ▸ ⟨htypes ▸ h, rfl⟩
  obtain ⟨hrecords, hlists⟩ := mapped_complete hfinish rfl hkeeps
  have hcore : c.types.core .object ≠ c.types.core label := by
    rw [htypes]
    decide
  obtain ⟨fields, hw, -, hnames⟩ := hrecords _ _ _ _ _ _ _ hcore hm
    (by rw [htypes]; decide) hrecord
  obtain ⟨ws, hws, hlength, -⟩ := hlists _ _ _ _ _ (by rw [htypes]; decide) hlist
  refine ⟨c, id', _, ws, hfinish, hkeeps, hrecord, ⟨fields, hw, ?_⟩, hws ▸ hlist, hlength⟩
  rw [hnames (by rw [htypes]; decide), htypes]
  decide

/-- Mapped to text a list is a list no more: everything has a text, a list of two numbers too. -/
theorem lists_staying_lists_fails :
    ¬ ∀ (r : Registry) (calls : List Plan.Call) (id id' : Nat) (c : Configuration),
      (Plan.run r calls).finish id = .ok (c, id') → ∀ items source target w,
        c.valueAs (.list items) source target = .ok w →
          ∃ ws, w = .list ws ∧ ws.length = items.length := by
  intro h
  have htext : (Configuration.mk .standard []).valueAs (.list [.int 1, .int 2])
      (.seq .list .int32) .string = .ok (.str "[1, 2]") := by rfl
  obtain ⟨ws, hws, -⟩ := h .standard [] 0 0 ⟨.standard, []⟩ rfl _ _ _ _ htext
  cases hws

end Configuration

end Recast
