import Recast.Proofs.PathMapping
import Recast.Proofs.Unchanged

/-! # One way from a root

An include stands for the one way that leads from its root along the chains of
its expression.  Only chains next to each other by length are compared; because
the beginnings of one list are one way, that decides about any two.

- `Registry.longestChain_cases` — the last of the chains continues all of them,
  or two of them part.
- `Registry.singleChain_longest` — the expression as it is without chains, the
  longest chain if there is one way, and otherwise the error names two chains
  that part.
-/

namespace Recast

/-! ## §1  Chains from a root -/

namespace Expr

/-- A member access of the expression leads from `root` along `chain`. -/
def HasChain (e root : Expr) (chain : List String) : Prop :=
  ∃ n ∈ e.nodes, n.isMember = true ∧ (n.chainBase == root) = true ∧ n.chainNames = chain

/-- Of two chains from `root` one is the beginning of the other. -/
def OneWay (e root : Expr) : Prop :=
  ∀ c c', e.HasChain root c → e.HasChain root c' → c <+: c' ∨ c' <+: c

theorem ty_eq_of_beq {a b : Expr} (h : (a == b) = true) : a.ty = b.ty := by
  change Expr.beq a b = true at h
  unfold Expr.beq at h
  split at h <;> simp_all [Expr.ty]

theorem HasChain.ne_nil {e root : Expr} {chain : List String} (h : e.HasChain root chain) :
    chain ≠ [] := by
  obtain ⟨n, -, hmember, -, rfl⟩ := h
  cases n with
  | member a m => simp [chainNames]
  | _ => simp [isMember] at hmember

end Expr

/-! ## §2  The chains, shortest first -/

theorem mem_foldl_seen {x : List String} : ∀ (xs seen : List (List String)),
    x ∈ xs.foldl (fun seen x => if seen.contains x then seen else seen ++ [x]) seen ↔
      x ∈ seen ∨ x ∈ xs := by
  intro xs
  induction xs with
  | nil => simp
  | cons y ys ih =>
      intro seen
      rw [List.foldl_cons, ih]
      by_cases hy : y ∈ seen
      · grind
      · grind

theorem foldl_seen_nodup : ∀ (xs : List (List String)) {seen : List (List String)}, seen.Nodup →
    (xs.foldl (fun seen x => if seen.contains x then seen else seen ++ [x]) seen).Nodup
  | [], _, h => h
  | x :: xs, seen, h => by
      rw [List.foldl_cons]
      refine foldl_seen_nodup xs ?_
      split
      · exact h
      · rename_i hx
        grind

theorem mem_distinct {x : List String} {xs : List (List String)} : x ∈ distinct xs ↔ x ∈ xs := by
  rw [distinct, mem_foldl_seen]
  simp

theorem distinct_nodup (xs : List (List String)) : (distinct xs).Nodup :=
  foldl_seen_nodup xs List.nodup_nil

namespace Registry

variable {r : Registry}

theorem mem_chainsFrom {root e : Expr} {chain : List String} :
    chain ∈ chainsFrom root e ↔ e.HasChain root chain := by
  simp only [chainsFrom, mem_distinct, List.mem_map, List.mem_filter, Bool.and_eq_true,
    Expr.HasChain, and_assoc]

/-- The chains that start at `root`, shortest first. -/
theorem chains_ascending (root e : Expr) :
    (sortBy (fun a b : List String => a.length < b.length) (chainsFrom root e)).Pairwise
      fun a b => a.length ≤ b.length ∧ a ≠ b := by
  have hlength : (sortBy (fun a b : List String => a.length < b.length)
      (chainsFrom root e)).Pairwise fun a b => ¬ decide (b.length < a.length) = true :=
    sortBy_ascending (by grind) (by grind) (chainsFrom root e)
  have hnodup : (sortBy (fun a b : List String => a.length < b.length)
      (chainsFrom root e)).Nodup := (sortBy_perm _ _).nodup_iff.mpr (distinct_nodup _)
  exact hlength.imp₂ (fun a b h hne => ⟨by simpa using h, hne⟩) hnodup

/-! ## §3  Neighbours decide -/

/-- If each chain continues the one before, the last continues all of them; the first that does
not continue the one before is too long to be its beginning. -/
theorem longestChain_cases (root : Expr) : ∀ (chains : List (List String)) (shortest : List String),
    (shortest :: chains).Pairwise (fun a b => a.length ≤ b.length ∧ a ≠ b) →
      (∃ longest ∈ shortest :: chains, r.longestChain root shortest chains = .ok longest ∧
        ∀ c ∈ shortest :: chains, c <+: longest) ∨
      ∃ c ∈ shortest :: chains, ∃ c' ∈ shortest :: chains, ¬ c <+: c' ∧ ¬ c' <+: c ∧
        r.longestChain root shortest chains =
          .error (.includeTooComplex (r.chainText root c) (r.chainText root c')) := by
  intro chains
  induction chains with
  | nil => exact fun shortest _ => .inl ⟨shortest, by simp, rfl, by simp⟩
  | cons next chains ih =>
      intro shortest hsorted
      obtain ⟨hshortest, hsorted⟩ := List.pairwise_cons.mp hsorted
      have hnext := hshortest next List.mem_cons_self
      by_cases hprefix : shortest <+: next
      · rw [longestChain, if_pos (List.isPrefixOf_iff_prefix.mpr hprefix)]
        rcases ih next hsorted with ⟨longest, hmem, heq, hall⟩ | ⟨c, hc, c', hc', h⟩
        · refine .inl ⟨longest, List.mem_cons_of_mem _ hmem, heq, fun c hc => ?_⟩
          rcases List.mem_cons.mp hc with rfl | hc
          · exact hprefix.trans (hall next List.mem_cons_self)
          · exact hall c hc
        · exact .inr ⟨c, List.mem_cons_of_mem _ hc, c', List.mem_cons_of_mem _ hc', h⟩
      · refine .inr ⟨shortest, by simp, next, by simp, hprefix, fun hback => ?_, ?_⟩
        · exact hnext.2 (hback.eq_of_length_le hnext.1).symm
        · rw [longestChain, if_neg (mt List.isPrefixOf_iff_prefix.mp hprefix)]

theorem mkPath_of_requireMembers : ∀ {path : List String} {e : Expr} {ms : List Member},
    r.requireMembers e.ty path = .ok ms → r.mkPath e path = .ok (e.select ms)
  | [], _, _, h => by
      cases h
      rfl
  | name :: path, e, ms, h => by
      simp only [requireMembers, Checked.bind_eq_ok, Checked.pure_eq_ok] at h
      obtain ⟨m, hm, rest, hrest, rfl⟩ := h
      have := mkPath_of_requireMembers (e := .member e m) hrest
      simp only [mkPath, mkMember, Checked.bind_eq_ok, Checked.pure_eq_ok]
      exact ⟨_, ⟨m, hm, rfl⟩, this⟩

/-- A chain of a well-typed expression is one of the type it starts at. -/
theorem requireMembers_of_hasChain {e root : Expr} {chain : List String} (he : r.WellTyped e)
    (h : e.HasChain root chain) : ∃ ms, r.requireMembers root.ty chain = .ok ms := by
  obtain ⟨n, hn, -, hbase, rfl⟩ := h
  rw [← Expr.ty_eq_of_beq hbase]
  exact requireMembers_chainNames fun x hx => he x (Expr.nodes_subset_of_mem hn hx)

/-! ## §4  The single chain -/

/-- The chains decide what an include is reduced to. -/
theorem singleChain_longest {e : Expr} (root : Expr) (he : r.WellTyped e) :
    ((∀ c, ¬ e.HasChain root c) → r.singleChain e root = .ok e) ∧
    ((∃ c, e.HasChain root c) → e.OneWay root →
      ∃ longest ms, e.HasChain root longest ∧ (∀ c, e.HasChain root c → c <+: longest) ∧
        r.requireMembers root.ty longest = .ok ms ∧ ms.map (·.name) = longest ∧
        r.singleChain e root = .ok (root.select ms)) ∧
    (¬ e.OneWay root →
      ∃ c c', e.HasChain root c ∧ e.HasChain root c' ∧ ¬ c <+: c' ∧ ¬ c' <+: c ∧
        r.singleChain e root =
          .error (.includeTooComplex (r.chainText root c) (r.chainText root c'))) := by
  -- sorting and leaving out what was seen keep the chains, so both cases speak of `HasChain`
  have hmem : ∀ c, c ∈ sortBy (fun a b => a.length < b.length) (chainsFrom root e) ↔
      e.HasChain root c := fun c => (sortBy_perm _ _).mem_iff.trans mem_chainsFrom
  have hsorted := chains_ascending root e
  unfold singleChain
  generalize sortBy (fun a b : List String => a.length < b.length) (chainsFrom root e) = chains
    at hmem hsorted
  cases chains with
  | nil =>
      have hnone : ∀ c, ¬ e.HasChain root c := fun c hc => by simpa using (hmem c).mpr hc
      exact ⟨fun _ => rfl, fun ⟨c, hc⟩ => absurd hc (hnone c),
        fun h => absurd (fun c c' hc => absurd hc (hnone c)) h⟩
  | cons shortest chains =>
      have hfirst := (hmem shortest).mp List.mem_cons_self
      refine ⟨fun h => absurd hfirst (h shortest), ?_⟩
      rcases longestChain_cases (r := r) root chains shortest hsorted with
        ⟨longest, hlongest, heq, hall⟩ | ⟨c, hc, c', hc', hcc', hc'c, heq⟩
      · obtain ⟨ms, hms⟩ := requireMembers_of_hasChain he ((hmem longest).mp hlongest)
        refine ⟨fun _ _ => ⟨longest, ms, (hmem _).mp hlongest, ?_, hms,
          names_of_requireMembers hms, ?_⟩, fun h => ?_⟩
        · exact fun c hc => hall c ((hmem c).mpr hc)
        · simp only [heq, Checked.bind_eq_ok]
          exact ⟨longest, rfl, mkPath_of_requireMembers hms⟩
        · refine absurd (fun c c' hc hc' => ?_) h
          exact List.prefix_or_prefix_of_prefix (hall c ((hmem c).mpr hc))
            (hall c' ((hmem c').mpr hc'))
      · have hc := (hmem c).mp hc
        have hc' := (hmem c').mp hc'
        refine ⟨fun _ h => ?_, fun _ => ⟨c, c', hc, hc', hcc', hc'c, ?_⟩⟩
        · exact absurd (h c c' hc hc') (by simp [hcc', hc'c])
        · simp only [heq]
          rfl

/-! ### Lines of orders -/

namespace Lines

def line : Ty := .declared 0

def order : Ty := .declared 1

def ofOrder : Member := ⟨"Order", order⟩

def note : Member := ⟨"Note", .string⟩

def label : Member := ⟨"Label", .string⟩

def registry : Registry :=
  { declarations := [.record "Line" none [ofOrder], .record "Order" none [note, label]] }

def l : Expr := .param ⟨0, "l", line⟩

/-- `l.Order == null || l.Order.Note == "x"` -/
def noted : Expr :=
  .binary .or (.binary .equal (.member l ofOrder) (.const .null order) none .boolean)
    (.binary .equal (l.select [ofOrder, note]) (.const (.str "x") .string) none .boolean) none
    .boolean

/-- `l.Order.Note == l.Order.Label` -/
def labelled : Expr :=
  .binary .equal (l.select [ofOrder, note]) (l.select [ofOrder, label]) none .boolean

theorem noted_wellTyped : registry.WellTyped noted := by
  intro n hn
  simp only [noted, l, Expr.select, List.foldl_cons, List.foldl_nil, Expr.nodes, List.cons_append,
    List.nil_append, List.mem_cons, List.not_mem_nil, or_false] at hn
  rcases hn with rfl | rfl | rfl | rfl | rfl | rfl | rfl | rfl | rfl | rfl
  all_goals trivial

theorem labelled_wellTyped : registry.WellTyped labelled := by
  intro n hn
  simp only [labelled, l, Expr.select, List.foldl_cons, List.foldl_nil, Expr.nodes,
    List.cons_append, List.nil_append, List.mem_cons, List.not_mem_nil, or_false] at hn
  rcases hn with rfl | rfl | rfl | rfl | rfl | rfl | rfl
  all_goals trivial

end Lines

open Lines in
/-- The order and its note are one way from the line; the note and the label are two. -/
theorem singleChain_lines :
    (registry.WellTyped noted ∧ registry.singleChain noted l = .ok (l.select [ofOrder, note])) ∧
    registry.WellTyped labelled ∧ ∃ c c', labelled.HasChain l c ∧ labelled.HasChain l c' ∧
      ¬ c <+: c' ∧ ¬ c' <+: c ∧ registry.singleChain labelled l =
        .error (.includeTooComplex (registry.chainText l c) (registry.chainText l c')) := by
  have hnoted : ∀ c, noted.HasChain l c ↔ c = ["Order"] ∨ c = ["Order", "Note"] := fun c =>
    mem_chainsFrom.symm.trans (by
      rw [show chainsFrom l noted = [["Order"], ["Order", "Note"]] from by decide]
      simp)
  have hway : noted.OneWay l := fun c c' hc hc' => by
    rcases (hnoted c).mp hc with rfl | rfl <;> rcases (hnoted c').mp hc' with rfl | rfl <;> decide
  refine ⟨⟨noted_wellTyped, ?_⟩, labelled_wellTyped,
    (singleChain_longest l labelled_wellTyped).2.2 fun h => ?_⟩
  · obtain ⟨longest, ms, hlongest, hall, hms, -, heq⟩ :=
      (singleChain_longest l noted_wellTyped).2.1 ⟨_, (hnoted _).mpr (.inl rfl)⟩ hway
    have hnote := hall ["Order", "Note"] ((hnoted _).mpr (.inr rfl))
    rcases (hnoted longest).mp hlongest with rfl | rfl
    · exact absurd hnote (by decide)
    · obtain rfl : [ofOrder, note] = ms := Except.ok.inj hms
      exact heq
  · have hc : labelled.HasChain l ["Order", "Note"] := mem_chainsFrom.mp (by decide)
    have hc' : labelled.HasChain l ["Order", "Label"] := mem_chainsFrom.mp (by decide)
    exact absurd (h _ _ hc hc') (by decide)

end Registry

end Recast
