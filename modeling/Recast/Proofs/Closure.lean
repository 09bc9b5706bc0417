import Recast.Proofs.Registration

/-! # The closure of a table

A correspondence implies others: those of the parts of its two types, and those that
the mapping between the two types links it to.  `Configuration.Implies` lists them by
what the two types are, apart from how registration looks for them.

Registration follows the parts of a delegate or a sequence only and asks neither for
its arguments nor for a mapping between the two (`Configuration.Follows`).  What it
follows it follows completely: a table that was built by registrations that all ended
well is closed under it, and nothing is in the table for any other reason
(`Configuration.relate_computesClosure`).
-/

namespace Recast

namespace Configuration

variable (c : Configuration)

/-! ## §1  What a correspondence implies -/

/-- Parameters and results of delegates, elements of sequences. -/
inductive ImpliesPart (model data : Ty) : Ty × Ty → Prop where
  | parameter {params dataParams : List Ty} {ret dataRet : Ty} {p : Ty × Ty}
      (hmodel : c.types.signature? model = some (params, ret))
      (hdata : c.types.signature? data = some (dataParams, dataRet))
      (hp : p ∈ params.zip dataParams) : ImpliesPart model data p
  | result {params dataParams : List Ty} {ret dataRet : Ty}
      (hmodel : c.types.signature? model = some (params, ret))
      (hdata : c.types.signature? data = some (dataParams, dataRet)) :
      ImpliesPart model data (ret, dataRet)
  | element {element dataElement : Ty}
      (hmodel : c.types.element? model = some element)
      (hdata : c.types.element? data = some dataElement) :
      ImpliesPart model data (element, dataElement)

/-- Arguments of a shared generic definition, or what the mapping between the types says: its
members that are no literals, and the mappings it is linked to. -/
inductive ImpliesLink (model data : Ty) : Ty × Ty → Prop where
  | argument {p : Ty × Ty} (hshared : c.sharesFormer model data = true)
      (hp : p ∈ (c.types.tyArgs model).zip (c.types.tyArgs data)) : ImpliesLink model data p
  | member {map : Mapping} {rule : MemberRule} {dataTy : Ty}
      (hmap : c.mapping? data model = some map) (hrule : rule ∈ c.allRules map)
      (hfed : rule.isFed = true) (hinput : rule.inputType? = some dataTy)
      (hmodel : c.types.isLiteral rule.member.ty = false)
      (hdata : c.types.isLiteral dataTy = false) : ImpliesLink model data (rule.member.ty, dataTy)
  | included {map : Mapping} {link : TyPair} (hmap : c.mapping? data model = some map)
      (hlink : link ∈ map.bases ++ map.derived) :
      ImpliesLink model data (link.destination, link.source)

def Implies (model data : Ty) (p : Ty × Ty) : Prop :=
  c.ImpliesPart model data p ∨ c.ImpliesLink model data p

/-- Taken apart, rather than looked up: the model is a delegate, or one side a sequence. -/
def TakenApart (model data : Ty) : Prop :=
  c.types.isDelegate model = true ∨ c.types.isSequence model = true ∨
    c.types.isSequence data = true

/-- The implied pairs that registration goes after. -/
def Follows (model data : Ty) (p : Ty × Ty) : Prop :=
  c.ImpliesPart model data p ∨ ¬ c.TakenApart model data ∧ c.ImpliesLink model data p

variable {c} {model data : Ty} {p : Ty × Ty} {pairs : List (Ty × Ty)}

theorem memberPair?_eq_some {rule : MemberRule} : c.memberPair? rule = some p ↔
    ∃ dataTy, rule.inputType? = some dataTy ∧ rule.isFed = true ∧
      c.types.isLiteral rule.member.ty = false ∧ c.types.isLiteral dataTy = false ∧
      (rule.member.ty, dataTy) = p := by
  unfold memberPair?
  cases rule.inputType? with
  | none => simp
  | some dataTy => simp [and_assoc]

theorem mem_mappingPairs {map : Mapping} (hmap : c.mapping? data model = some map)
    (hargs : c.sharesFormer model data = false) :
    p ∈ c.mappingPairs map ↔ c.ImpliesLink model data p := by
  unfold mappingPairs
  rw [List.mem_append, List.mem_filterMap, List.mem_map]
  constructor
  · rintro (⟨rule, hrule, hp⟩ | ⟨link, hlink, rfl⟩)
    · obtain ⟨dataTy, hinput, hfed, hmodel, hdata, rfl⟩ := memberPair?_eq_some.mp hp
      exact .member hmap hrule hfed hinput hmodel hdata
    · exact .included hmap hlink
  · intro h
    cases h with
    | argument hshared _ => simp [hargs] at hshared
    | member hmap' hrule hfed hinput hmodel hdata =>
        obtain rfl := Option.some.inj (hmap.symm.trans hmap')
        exact .inl ⟨_, hrule, memberPair?_eq_some.mpr ⟨_, hinput, hfed, hmodel, hdata, rfl⟩⟩
    | included hmap' hlink =>
        obtain rfl := Option.some.inj (hmap.symm.trans hmap')
        exact .inr ⟨_, hlink, rfl⟩

theorem impliesLink_shared (h : c.sharesFormer model data = true) :
    c.ImpliesLink model data p ↔ p ∈ (c.types.tyArgs model).zip (c.types.tyArgs data) := by
  have hnone : c.mapping? data model = none := by simp_all [sharesFormer]
  constructor
  · intro hp
    cases hp with
    | argument _ hp => exact hp
    | member hmap => cases hnone.symm.trans hmap
    | included hmap => cases hnone.symm.trans hmap
  · exact .argument h

theorem not_impliesLink (h : c.sharesFormer model data = false)
    (hnone : c.mapping? data model = none) : ¬ c.ImpliesLink model data p := by
  intro hp
  cases hp with
  | argument hshared => cases h.symm.trans hshared
  | member hmap => cases hnone.symm.trans hmap
  | included hmap => cases hnone.symm.trans hmap

theorem element?_of_isDelegate {t : Ty} (h : c.types.isDelegate t = true) :
    c.types.element? t = none := by
  unfold Registry.isDelegate at h
  cases t <;> simp_all [Registry.signature?, Registry.element?]

theorem impliesPart_delegate {params dataParams : List Ty} {ret dataRet : Ty}
    (hmodel : c.types.signature? model = some (params, ret))
    (hdata : c.types.signature? data = some (dataParams, dataRet)) :
    c.ImpliesPart model data p ↔ p ∈ params.zip dataParams ++ [(ret, dataRet)] := by
  rw [List.mem_append, List.mem_singleton]
  constructor
  · intro h
    cases h with
    | parameter hmodel' hdata' hp =>
        cases hmodel.symm.trans hmodel'
        cases hdata.symm.trans hdata'
        exact .inl hp
    | result hmodel' hdata' =>
        cases hmodel.symm.trans hmodel'
        cases hdata.symm.trans hdata'
        exact .inr rfl
    | element hmodel' _ =>
        have hdelegate : c.types.isDelegate model = true := by simp [Registry.isDelegate, hmodel]
        cases (element?_of_isDelegate hdelegate).symm.trans hmodel'
  · rintro (hp | rfl)
    · exact .parameter hmodel hdata hp
    · exact .result hmodel hdata

theorem impliesPart_other (hmodel : c.types.signature? model = none) :
    c.ImpliesPart model data p ↔
      ∃ element dataElement, c.types.element? model = some element ∧
        c.types.element? data = some dataElement ∧ p = (element, dataElement) := by
  constructor
  · intro h
    cases h with
    | parameter hmodel' => cases hmodel.symm.trans hmodel'
    | result hmodel' => cases hmodel.symm.trans hmodel'
    | element hmodel' hdata => exact ⟨_, _, hmodel', hdata, rfl⟩
  · rintro ⟨_, _, hmodel, hdata, rfl⟩
    exact .element hmodel hdata

theorem follows_of_takenApart (h : c.TakenApart model data) :
    c.Follows model data p ↔ c.ImpliesPart model data p :=
  ⟨fun hp => hp.resolve_right fun hlink => hlink.1 h, .inl⟩

theorem follows_of_not_takenApart (h : ¬ c.TakenApart model data) :
    c.Follows model data p ↔ c.ImpliesLink model data p := by
  constructor
  · rintro (hp | hp)
    · cases hp with
      | parameter hmodel => exact absurd (.inl (by simp [Registry.isDelegate, hmodel])) h
      | result hmodel => exact absurd (.inl (by simp [Registry.isDelegate, hmodel])) h
      | element hmodel _ => exact absurd (.inr (.inl (by simp [Registry.isSequence, hmodel]))) h
    · exact hp.2
  · exact fun hp => .inr ⟨h, hp⟩

/-- What registration puts behind the pending pairs is what it is said to follow. -/
theorem mem_implied (h : c.implied model data = .ok pairs) :
    p ∈ pairs ↔ c.Follows model data p := by
  unfold implied at h
  split at h
  · -- Delegates
    rename_i params ret hmodel
    rw [follows_of_takenApart (.inl (by simp [Registry.isDelegate, hmodel]))]
    split at h
    · cases h
    · rename_i dataParams dataRet hdata
      split at h
      · obtain rfl := Except.ok.inj h
        exact (impliesPart_delegate hmodel hdata).symm
      · cases h
  · rename_i hmodel
    split at h
    · -- Sequences
      rename_i hsequence
      rw [follows_of_takenApart (.inr (by simpa using hsequence)), impliesPart_other hmodel]
      split at h
      · rename_i helement hdataElement
        obtain rfl := Except.ok.inj h
        simp [helement, hdataElement]
      · rename_i hnone
        obtain rfl := Except.ok.inj h
        simpa using fun m hm d hd => (hnone m d hm hd).elim
    · rename_i hsequence
      rw [follows_of_not_takenApart (by simp_all [TakenApart, Registry.isDelegate])]
      split at h
      · -- Instances of one generic definition
        rename_i hshared
        obtain rfl := Except.ok.inj h
        exact (impliesLink_shared hshared).symm
      · rename_i hshared
        rw [Bool.not_eq_true] at hshared
        split at h
        · -- Mapped types
          rename_i map hmap
          obtain rfl := Except.ok.inj h
          exact mem_mappingPairs hmap hshared
        · rename_i hnone
          obtain rfl := Except.ok.inj h
          exact iff_of_false List.not_mem_nil (not_impliesLink hshared hnone)

/-! ## §2  Closed tables -/

variable {t t' : TypeTable} {pending : List (Ty × Ty)} {outcome : Checked Unit}

/-- What an entry implies can be told, and it is settled. -/
def Closed (c : Configuration) (t : TypeTable) : Prop :=
  ∀ p ∈ t.entries, ∃ pairs, c.implied p.1 p.2 = .ok pairs ∧ ∀ q ∈ pairs, c.Settled t q

/-- What an entry implies is settled or pending. -/
def ClosedUpTo (c : Configuration) (t : TypeTable) (pending : List (Ty × Ty)) : Prop :=
  ∀ p ∈ t.entries, ∃ pairs, c.implied p.1 p.2 = .ok pairs ∧
    ∀ q ∈ pairs, c.Settled t q ∨ q ∈ pending

theorem closed_empty (c : Configuration) : c.Closed {} := fun _ hp => by cases hp

theorem Closed.upTo (h : c.Closed t) (pending : List (Ty × Ty)) : c.ClosedUpTo t pending := by
  intro p hp
  obtain ⟨pairs, himplied, hpairs⟩ := h p hp
  exact ⟨pairs, himplied, fun q hq => .inl (hpairs q hq)⟩

theorem settled_enter (t : TypeTable) (p : Ty × Ty) (h : ¬ c.Settled t p) :
    c.Settled (c.enter t p) p :=
  .inr (TypeTable.contains_of_get? (get?_enter h))

theorem ClosedUpTo.skip (h : c.ClosedUpTo t (p :: pending)) (hp : c.Settled t p) :
    c.ClosedUpTo t pending := by
  intro k hk
  obtain ⟨pairs, himplied, hpairs⟩ := h k hk
  refine ⟨pairs, himplied, fun q hq => ?_⟩
  rcases hpairs q hq with hq | hq
  · exact .inl hq
  · rcases List.mem_cons.mp hq with rfl | hq
    · exact .inl hp
    · exact .inr hq

theorem ClosedUpTo.add (h : c.ClosedUpTo t (p :: pending)) (new : ¬ c.Settled t p)
    (implied : c.implied (c.stripped p).1 (c.stripped p).2 = .ok pairs) :
    c.ClosedUpTo (c.enter t p) (pending ++ pairs) := by
  intro k hk
  rcases List.mem_append.mp hk with hk | hk
  · obtain ⟨more, himplied, hmore⟩ := h k hk
    refine ⟨more, himplied, fun q hq => ?_⟩
    rcases hmore q hq with hq | hq
    · exact .inl (hq.mono (TypeTable.prefix_add _ _ _))
    · rcases List.mem_cons.mp hq with rfl | hq
      · exact .inl (settled_enter t q new)
      · exact .inr (List.mem_append_left _ hq)
  · -- This is the entry that was added, so all it implies is pending now.
    obtain rfl := List.mem_singleton.mp hk
    exact ⟨pairs, implied, fun q hq => .inr (List.mem_append_right _ hq)⟩

theorem Drains.closed (h : c.Drains pending t outcome t') (hok : outcome = .ok ()) :
    c.ClosedUpTo t pending → c.Closed t' := by
  induction h with
  | done t =>
      intro hclosed p hp
      obtain ⟨pairs, himplied, hpairs⟩ := hclosed p hp
      exact ⟨pairs, himplied, fun q hq => (hpairs q hq).resolve_right List.not_mem_nil⟩
  | skip settled _ ih => exact fun hclosed => ih hok (hclosed.skip settled)
  | add new implied _ ih => exact fun hclosed => ih hok (hclosed.add new implied)
  | fail => cases hok

/-- Registration keeps a table closed. -/
theorem relate_closed {u : Unit} (h : Returns (c.relate model data) t u t') (ht : c.Closed t) :
    c.Closed t' :=
  (returns_relate_iff.mp h).closed rfl (ht.upTo _)

/-! ## §3  Where entries come from -/

/-- One of the given pairs, or one that an entry of the table implies. -/
def Caused (c : Configuration) (given : Ty × Ty) (t : TypeTable) (p : Ty × Ty) : Prop :=
  c.stripped p = c.stripped given ∨ ∃ q ∈ t.entries, c.Follows q.1 q.2 p

theorem Caused.mono {given : Ty × Ty} (h : c.Caused given t p) (ht : t.entries <+: t'.entries) :
    c.Caused given t' p :=
  h.imp_right fun ⟨q, hq, hp⟩ => ⟨q, ht.subset hq, hp⟩

/-- Every entry the second table has beyond the first is the given pair, as `view` shows it, or
implied by another entry. -/
def Traced (implies : Ty → Ty → Ty × Ty → Prop) (view : Ty × Ty → Ty × Ty) (given : Ty × Ty)
    (t t' : TypeTable) : Prop :=
  ∀ p ∈ t'.entries, p ∉ t.entries →
    p = view given ∨ ∃ q ∈ t'.entries, q ≠ p ∧ ∃ x, implies q.1 q.2 x ∧ p = view x

/-- An entry is caused before it is made, so never by itself. -/
theorem traced_enter {given : Ty × Ty} (hp : c.Caused given t p) :
    Traced c.Follows c.stripped given t (c.enter t p) := by
  intro k hk hold
  rcases List.mem_append.mp hk with hk | hk
  · exact absurd hk hold
  · obtain rfl := List.mem_singleton.mp hk
    rcases hp with hp | ⟨q, hq, hp⟩
    · exact .inl hp
    · refine .inr ⟨q, List.mem_append_left _ hq, fun hsame => hold (hsame ▸ hq), p, hp, rfl⟩

theorem Traced.trans {implies : Ty → Ty → Ty × Ty → Prop} {view : Ty × Ty → Ty × Ty}
    {given : Ty × Ty} {t'' : TypeTable} (h : Traced implies view given t t')
    (h' : Traced implies view given t' t'') (ht : t'.entries <+: t''.entries) :
    Traced implies view given t t'' := by
  intro p hp hold
  by_cases hmid : p ∈ t'.entries
  · exact (h p hmid hold).imp_right fun ⟨q, hq, hne, hx⟩ => ⟨q, ht.subset hq, hne, hx⟩
  · exact h' p hp hmid

theorem Drains.traced {given : Ty × Ty} (h : c.Drains pending t outcome t') :
    (∀ p ∈ pending, c.Caused given t p) → Traced c.Follows c.stripped given t t' := by
  induction h with
  | done t => exact fun _ p hp hold => absurd hp hold
  | skip _ _ ih => exact fun hcaused => ih fun q hq => hcaused q (List.mem_cons_of_mem _ hq)
  | @add p pending pairs _ t _ _ implied rest ih =>
      intro hcaused
      have hp := hcaused p List.mem_cons_self
      refine (traced_enter hp).trans (ih fun q hq => ?_) rest.grows.entries
      rcases List.mem_append.mp hq with hq | hq
      · exact (hcaused q (List.mem_cons_of_mem _ hq)).mono (TypeTable.prefix_add _ _ _)
      · exact .inr ⟨c.stripped p, List.mem_append_right _ List.mem_cons_self,
          (mem_implied implied).mp hq⟩
  | fail => exact fun hcaused => traced_enter (hcaused _ List.mem_cons_self)

/-! ## §4  Tables built by registration -/

/-- The tables that registrations build as long as all of them end well. -/
inductive Registered (c : Configuration) : TypeTable → Prop where
  | empty : Registered c {}
  | relate {t t' : TypeTable} {model data : Ty} {u : Unit} (ht : Registered c t)
      (h : Returns (c.relate model data) t u t') : Registered c t'

theorem Registered.closed (h : c.Registered t) : c.Closed t := by
  induction h with
  | empty => exact c.closed_empty
  | relate _ h ih => exact relate_closed h ih

/-- Whatever an entry implies is settled. -/
def ClosedFor (c : Configuration) (implies : Ty → Ty → Ty × Ty → Prop) (t : TypeTable) : Prop :=
  ∀ p ∈ t.entries, ∀ q, implies p.1 p.2 q → c.Settled t q

theorem Closed.closedFor (h : c.Closed t) : c.ClosedFor c.Follows t := by
  intro p hp q hq
  obtain ⟨pairs, himplied, hpairs⟩ := h p hp
  exact hpairs q ((mem_implied himplied).mpr hq)

/-- Registration comes to its end, whatever refers to whatever else in a circle.  If it ends well,
the table is closed under all that registration follows; and everything that was added is the
given pair or followed from another entry. -/
theorem relate_computesClosure (ht : c.Registered t) (model data : Ty) :
    ∃ outcome t', (c.relate model data).run t = (outcome, t') ∧
      c.Drains [(model, data)] t outcome t' ∧
      (outcome = .ok () → c.ClosedFor c.Follows t') ∧
      Traced c.Follows c.stripped (model, data) t t' := by
  have hdrains := c.drains_relate model data t
  refine ⟨_, _, rfl, hdrains, fun hok => ?_, hdrains.traced fun p hp => ?_⟩
  · exact (hdrains.closed hok (ht.closed.upTo _)).closedFor
  · rw [List.mem_singleton.mp hp]
    exact .inl rfl

/-! ### Records that refer to each other -/

namespace Folders

def folder : Ty := .declared 0

def note : Ty := .declared 1

def folderModel : Ty := .declared 2

def noteModel : Ty := .declared 3

def registry : Registry :=
  { declarations := [
      .record "Folder" none [⟨"Parent", folder⟩, ⟨"Notes", .seq .list note⟩],
      .record "Note" none [⟨"Place", folder⟩],
      .record "FolderModel" none [⟨"Parent", folderModel⟩, ⟨"Notes", .seq .list noteModel⟩],
      .record "NoteModel" none [⟨"Place", folderModel⟩]] }

def config : Configuration :=
  { types := registry,
    maps := [
      { source := folder, destination := folderModel,
        rules := [{ member := ⟨"Parent", folderModel⟩, source := [⟨"Parent", folder⟩] },
          { member := ⟨"Notes", .seq .list noteModel⟩,
            source := [⟨"Notes", .seq .list note⟩] }] },
      { source := note, destination := noteModel,
        rules := [{ member := ⟨"Place", folderModel⟩, source := [⟨"Place", folder⟩] }] }] }

/-- What a note brings with it. -/
def notes : TypeTable :=
  ⟨[(noteModel, note), (folderModel, folder), (.seq .list noteModel, .seq .list note)]⟩

def tests (t : Ty) : Ty := .func [t] .boolean

theorem registered : config.Registered notes :=
  .relate (u := ()) .empty (show Returns (config.relate noteModel note) {} () notes from rfl)

end Folders

open Folders in
theorem relate_computesClosure_folders :
    config.ClosedFor config.Follows (notes.add (tests folderModel) (tests folder)) ∧
      Traced config.Follows config.stripped (tests folderModel, tests folder) notes
        (notes.add (tests folderModel) (tests folder)) := by
  obtain ⟨_, _, hrun, -, hclosed, htraced⟩ :=
    relate_computesClosure registered (tests folderModel) (tests folder)
  cases hrun
  exact ⟨hclosed rfl, htraced⟩

/-! ### What registration does not follow

The mappings that a mapping between delegates or sequences is linked to, the arguments of
dictionaries whose pairs have a mapping of their own, and the `Expression<>` around types. -/

namespace Parted

def order : Ty := .declared 0

def orderModel : Ty := .declared 1

def line : Ty := .declared 2

def lineModel : Ty := .declared 3

def registry : Registry :=
  { declarations := [.record "Order" none [], .record "OrderModel" none [],
      .record "Line" none [], .record "LineModel" none []] }

/-- One mapping, linked to the one of the lines. -/
def linked (model data : Ty) : Configuration :=
  { types := registry,
    maps := [{ source := data, destination := model, bases := [⟨line, lineModel⟩] }] }

theorem implies_line (model data : Ty) :
    (linked model data).Implies model data (lineModel, line) := by
  have hmap : (linked model data).mapping? data model =
      some { source := data, destination := model, bases := [⟨line, lineModel⟩] } := by
    simp [mapping?, mappingOf?, linked, Mapping.pair]
  exact .inr (.included hmap List.mem_cons_self)

theorem not_closedFor_linked {t : TypeTable} (h : (model, data) ∈ t.entries)
    (hline : t.contains lineModel = false) :
    ¬ (linked model data).ClosedFor (linked model data).Implies t := by
  intro hclosed
  rcases hclosed _ h _ (implies_line model data) with hsame | hkey
  · cases hsame
  · exact absurd (hline.symm.trans hkey) Bool.false_ne_true

/-- The pairs of the dictionaries are mapped, and neither key nor value. -/
def paired : Configuration :=
  { types := registry,
    maps := [{
      source := .keyValue order line
      destination := .keyValue orderModel lineModel
      rules := [{ member := ⟨"Key", orderModel⟩, ignored := true },
        { member := ⟨"Value", lineModel⟩, ignored := true }] }] }

def dictionaries : TypeTable :=
  ⟨[(.dictionary orderModel lineModel, .dictionary order line),
    (.keyValue orderModel lineModel, .keyValue order line)]⟩

theorem not_closedFor_paired : ¬ paired.ClosedFor paired.Implies dictionaries := by
  intro hclosed
  have himplies : paired.Implies (.dictionary orderModel lineModel) (.dictionary order line)
      (orderModel, order) := .inr (.argument rfl List.mem_cons_self)
  rcases hclosed _ List.mem_cons_self _ himplies with hsame | hkey
  · cases hsame
  · cases hkey

def plain : Configuration := { types := registry }

def getters : TypeTable := ⟨[(.func [] orderModel, .func [] order), (orderModel, order)]⟩

theorem not_traced_plain : ¬ Traced plain.Implies id
    (.expression (.func [] orderModel), .expression (.func [] order)) {} getters := by
  intro htraced
  rcases htraced _ List.mem_cons_self List.not_mem_nil with hgiven | ⟨q, hq, hne, x, hx, hsame⟩
  · cases hgiven
  · rcases List.mem_cons.mp hq with rfl | hq
    · exact hne rfl
    · obtain rfl := List.mem_singleton.mp hq
      rcases hx with hx | hx
      · cases hx with
        | parameter hmodel => cases hmodel
        | result hmodel => cases hmodel
        | element hmodel => cases hmodel
      · cases hx with
        | argument hshared => cases hshared
        | member hmap => cases hmap
        | included hmap => cases hmap

end Parted

/-- The pair is registered into an empty table, and something that it implies is not. -/
def Misses (c : Configuration) (model data : Ty) : Prop :=
  ∃ t, Returns (c.relate model data) {} () t ∧ ¬ c.ClosedFor c.Implies t

open Parted in
/-- Registration does not go after all that a correspondence implies, and what it registers may be
implied under `Expression<>` only. -/
theorem relate_computesClosure_fails :
    (linked (.seq .list orderModel) (.seq .list order)).Misses
        (.seq .list orderModel) (.seq .list order) ∧
      (linked (.func [] orderModel) (.func [] order)).Misses
        (.func [] orderModel) (.func [] order) ∧
      (linked orderModel (.seq .list order)).Misses orderModel (.seq .list order) ∧
      paired.Misses (.dictionary orderModel lineModel) (.dictionary order line) ∧
      Returns (plain.relate (.expression (.func [] orderModel)) (.expression (.func [] order))) {}
        () getters ∧
      ¬ Traced plain.Implies id
        (.expression (.func [] orderModel), .expression (.func [] order)) {} getters :=
  ⟨⟨_, rfl, not_closedFor_linked List.mem_cons_self rfl⟩,
    ⟨_, rfl, not_closedFor_linked List.mem_cons_self rfl⟩,
    ⟨_, rfl, not_closedFor_linked List.mem_cons_self rfl⟩,
    ⟨dictionaries, rfl, not_closedFor_paired⟩, rfl, not_traced_plain⟩

end Configuration

end Recast
