import Mathlib.Data.List.Chain
import Recast.Name

/-! # Cutting names into words

Whether a word starts at a letter depends on the letters on both sides of it, so that taking
words out of a name might move the cuts near the two ends.  It does not.  The letter behind
counts only if it is small, and a small letter never starts the next word; so a cut is settled by
the two words that meet there, and whether there is one inside a word is settled by that word.

- `Text.covered_of_disjoint` — classes of characters that have none in common.
- `Name.Reading` — words without a cut in them that meet at cuts.
- `Name.wordsOf_eq_iff` — the words of a name are the one reading of it.
- `Name.words_stable` — nothing is lost, and words taken out of a name stay as they are.
-/

namespace Recast

/-! ## §1  Classes of characters -/

namespace Text

def Run.points (r : Run) : List Nat :=
  List.range' r.first ((r.last - r.first) / r.step + 1) r.step

/-- No code point is in both.  Only runs that overlap are gone through point by point. -/
def Run.disjoint (a b : Run) : Bool :=
  a.last.blt b.first || b.last.blt a.first || a.points.all fun n => !b.covers n

theorem Run.mem_points {r : Run} {n : Nat} (h : r.covers n = true) : n ∈ r.points := by
  simp only [Run.covers, Bool.and_eq_true, decide_eq_true_eq, beq_iff_eq] at h
  obtain ⟨⟨hfirst, hlast⟩, hstep⟩ := h
  refine List.mem_range'.mpr ⟨(n - r.first) / r.step, ?_, ?_⟩
  · exact Nat.lt_succ_of_le (Nat.div_le_div_right (Nat.sub_le_sub_right hlast _))
  · rw [Nat.mul_div_cancel' (Nat.dvd_of_mod_eq_zero hstep)]
    omega

theorem covered_of_disjoint {as bs : List Run}
    (h : as.all (fun a => bs.all a.disjoint) = true) {c : Char} (hc : covered as c = true) :
    covered bs c = false := by
  simp only [covered, List.any_eq_true, List.any_eq_false] at hc ⊢
  obtain ⟨a, ha, hac⟩ := hc
  intro b hb hbc
  have hdisjoint := List.all_eq_true.mp (List.all_eq_true.mp h a ha) b hb
  simp only [Run.disjoint, Bool.or_eq_true, Nat.blt_eq] at hdisjoint
  rcases hdisjoint with hapart | hpoints
  · simp only [Run.covers, Bool.and_eq_true, decide_eq_true_eq] at hac hbc
    omega
  · have := List.all_eq_true.mp hpoints _ (Run.mem_points hac)
    simp [hbc] at this

theorem isLowercase_of_isUppercase {c : Char} (h : isUppercase c = true) :
    isLowercase c = false :=
  covered_of_disjoint (by decide +kernel) h

end Text

namespace Name

open Text

/-! ## §2  Words -/

/-- What a letter in front of a name does to its words. -/
theorem wordsOf_cons_cons {c d : Char} {cs w : List Char} {ws : List (List Char)}
    (h : wordsOf (d :: cs) = w :: ws) : wordsOf (c :: d :: cs) =
      if startsWord c d cs.head? then [c] :: w :: ws else (c :: w) :: ws := by
  rw [wordsOf, h]

/-- The first word starts where the name does. -/
theorem wordsOf_cons (c : Char) (cs : List Char) : ∃ w ws, wordsOf (c :: cs) = (c :: w) :: ws := by
  cases cs with
  | nil => exact ⟨[], [], rfl⟩
  | cons d rest =>
      rw [wordsOf]
      split
      · exact ⟨[], [], rfl⟩
      · split
        · exact ⟨[], _, rfl⟩
        · exact ⟨_, _, rfl⟩

theorem flatten_wordsOf : ∀ cs : List Char, (wordsOf cs).flatten = cs
  | [] => rfl
  | [_] => rfl
  | c :: d :: rest => by
      have ih := flatten_wordsOf (d :: rest)
      obtain ⟨w, ws, hws⟩ := wordsOf_cons d rest
      rw [hws] at ih
      rw [wordsOf_cons_cons hws]
      split <;> simpa using ih

/-- Words other than the first one start with a capital. -/
theorem isUppercase_of_later_word : ∀ {cs w : List Char} {ws : List (List Char)},
    wordsOf cs = w :: ws → ∀ v ∈ ws, ∃ d rest, v = d :: rest ∧ isUppercase d = true
  | [], _, _, h => by cases h
  | [_], _, _, h => by
      cases h
      simp
  | c :: d :: rest, w, ws, h => by
      obtain ⟨u, us, hus⟩ := wordsOf_cons d rest
      have ih := isUppercase_of_later_word hus
      rw [wordsOf_cons_cons hus] at h
      split at h
      · rename_i hstarts
        cases h
        intro v hv
        rcases List.mem_cons.mp hv with rfl | hv
        · exact ⟨d, u, rfl, (Bool.and_eq_true _ _ ▸ hstarts).1⟩
        · exact ih v hv
      · cases h
        exact ih

/-! ## §3  Cuts -/

/-- A word starts where `before` ends and `after` goes on. -/
def cutBetween (before after : List Char) : Bool :=
  match before.getLast?, after with
  | some prev, cur :: rest => startsWord prev cur rest.head?
  | _, _ => false

variable {c d : Char} {w before after cs : List Char} {ws : List (List Char)}

@[simp] theorem cutBetween_nil_left : cutBetween [] after = false := rfl

@[simp] theorem cutBetween_nil_right : cutBetween before [] = false := by
  rw [cutBetween]
  rintro _ _ _ _ ⟨⟩

/-- Of what comes before a cut only the last letter counts. -/
@[simp] theorem cutBetween_cons_cons :
    cutBetween (c :: d :: before) after = cutBetween (d :: before) after := by
  simp only [cutBetween, List.getLast?_cons_cons]

theorem startsWord_capital {e : Char} (h : isUppercase e = true) :
    startsWord c d (some e) = startsWord c d none := by
  simp [startsWord, isLowercase_of_isUppercase h]

/-- A letter in front of a name is a word of its own or goes with the first word, and the first
word alone decides which. -/
theorem wordsOf_cons_word (h : wordsOf (d :: cs) = (d :: w) :: ws) :
    wordsOf (c :: d :: cs) =
      if cutBetween [c] (d :: w) then [c] :: (d :: w) :: ws else (c :: d :: w) :: ws := by
  have hcs : cs = w ++ ws.flatten := by
    simpa [h] using (flatten_wordsOf (d :: cs)).symm
  have hnext : startsWord c d cs.head? = startsWord c d w.head? := by
    match w, ws, hcs, h with
    | e :: w, ws, hcs, _ => rw [hcs, List.cons_append, List.head?_cons, List.head?_cons]
    | [], [], hcs, _ => rw [hcs, List.flatten_nil, List.append_nil]
    | [], v :: ws, hcs, h =>
        -- the first word is a single letter, and what is behind it is a capital
        obtain ⟨e, v, rfl, he⟩ := isUppercase_of_later_word h v List.mem_cons_self
        rw [hcs]
        exact startsWord_capital he
  rw [wordsOf_cons_cons h, hnext]
  rfl

/-! ## §4  Readings -/

/-- A word that no cut takes apart. -/
structure Whole (w : List Char) : Prop where
  nonempty : w ≠ []
  uncut : ∀ before after, before ++ after = w → cutBetween before after = false

/-- Words that can stand next to each other in a name. -/
structure Reading (ws : List (List Char)) : Prop where
  whole : ∀ w ∈ ws, Whole w
  cut : ws.IsChain fun before after => cutBetween before after = true

theorem whole_singleton : Whole [c] where
  nonempty := List.cons_ne_nil _ _
  uncut before after h := by
    rcases List.append_eq_singleton_iff.mp h with ⟨rfl, rfl⟩ | ⟨rfl, rfl⟩
    · exact cutBetween_nil_left
    · exact cutBetween_nil_right

theorem whole_cons_cons :
    Whole (c :: d :: w) ↔ cutBetween [c] (d :: w) = false ∧ Whole (d :: w) := by
  constructor
  · intro h
    refine ⟨h.uncut [c] (d :: w) rfl, List.cons_ne_nil _ _, fun before after heq => ?_⟩
    match before with
    | [] => exact cutBetween_nil_left
    | e :: before =>
        rw [← cutBetween_cons_cons]
        exact h.uncut (c :: e :: before) after (congrArg (c :: ·) heq)
  · rintro ⟨hfirst, hrest⟩
    refine ⟨List.cons_ne_nil _ _, fun before after heq => ?_⟩
    match before, heq with
    | [], _ => exact cutBetween_nil_left
    | [_], heq =>
        obtain ⟨rfl, rfl⟩ := List.cons.inj heq
        exact hfirst
    | _ :: e :: before, heq =>
        rw [cutBetween_cons_cons]
        exact hrest.uncut (e :: before) after (List.cons.inj heq).2

namespace Reading

theorem nil : Reading [] := ⟨by simp, .nil⟩

theorem singleton : Reading [[c]] := ⟨by simpa using whole_singleton, .singleton _⟩

theorem cons_iff : Reading (w :: ws) ↔
    Whole w ∧ (∀ v ∈ ws.head?, cutBetween w v = true) ∧ Reading ws := by
  constructor
  · rintro ⟨hwhole, hcut⟩
    obtain ⟨hw, hws⟩ := List.forall_mem_cons.mp hwhole
    obtain ⟨hfirst, hrest⟩ := List.isChain_cons.mp hcut
    exact ⟨hw, hfirst, hws, hrest⟩
  · rintro ⟨hw, hfirst, hws, hrest⟩
    exact ⟨List.forall_mem_cons.mpr ⟨hw, hws⟩, List.isChain_cons.mpr ⟨hfirst, hrest⟩⟩

theorem cons_word : Reading ([c] :: w :: ws) ↔ cutBetween [c] w = true ∧ Reading (w :: ws) := by
  rw [cons_iff]
  simp [whole_singleton]

theorem cons_letter : Reading ((c :: d :: w) :: ws) ↔
    cutBetween [c] (d :: w) = false ∧ Reading ((d :: w) :: ws) := by
  simp only [cons_iff, whole_cons_cons, cutBetween_cons_cons, and_assoc]

/-- Words that stand next to each other in a name can do so without the others. -/
theorem run {vs : List (List Char)} (h : Reading ws) (hrun : vs <:+: ws) : Reading vs := by
  refine ⟨fun w hw => h.whole w (hrun.subset hw), ?_⟩
  obtain ⟨earlier, later, rfl⟩ := hrun
  exact h.cut.left_of_append.right_of_append

theorem wordsOf_flatten : ∀ {ws : List (List Char)}, Reading ws → wordsOf ws.flatten = ws
  | [], _ => rfl
  | [] :: _, h => absurd rfl (h.whole [] List.mem_cons_self).nonempty
  | [[_]], _ => rfl
  | [c] :: [] :: _, h => absurd rfl (h.whole [] (by simp)).nonempty
  -- the first letter is put back in front of words that are read as they were
  | [c] :: (d :: w) :: ws, h => by
      obtain ⟨hcut, hrest⟩ := cons_word.mp h
      have ih := wordsOf_flatten hrest
      rw [List.flatten_cons, List.cons_append] at ih
      simpa [hcut] using wordsOf_cons_word (c := c) ih
  | (c :: d :: w) :: ws, h => by
      obtain ⟨hcut, hrest⟩ := cons_letter.mp h
      have ih := wordsOf_flatten hrest
      rw [List.flatten_cons, List.cons_append] at ih
      simpa [hcut] using wordsOf_cons_word (c := c) ih
termination_by ws => ws.flatten.length

end Reading

theorem reading_wordsOf : ∀ cs : List Char, Reading (wordsOf cs)
  | [] => .nil
  | [_] => .singleton
  | c :: d :: rest => by
      have ih := reading_wordsOf (d :: rest)
      obtain ⟨w, ws, hws⟩ := wordsOf_cons d rest
      rw [hws] at ih
      rw [wordsOf_cons_word hws]
      split
      · rename_i hcut
        exact Reading.cons_word.mpr ⟨hcut, ih⟩
      · rename_i huncut
        exact Reading.cons_letter.mpr ⟨Bool.eq_false_iff.mpr huncut, ih⟩

/-- There is one way to read a name. -/
theorem wordsOf_eq_iff : wordsOf cs = ws ↔ ws.flatten = cs ∧ Reading ws := by
  constructor
  · rintro rfl
    exact ⟨flatten_wordsOf cs, reading_wordsOf cs⟩
  · rintro ⟨rfl, h⟩
    exact h.wordsOf_flatten

/-! ## §5  Names -/

variable {name : String} {run : List String}

theorem toList_join_words (cs : List (List Char)) :
    (String.join (cs.map String.ofList)).toList = cs.flatten := by
  simp [String.toList_join, List.flatMap_map, List.flatMap_id']

theorem join_words (name : String) : String.join (words name) = name := by
  rw [← String.toList_inj, words, toList_join_words, flatten_wordsOf]

theorem words_eq_iff {ws : List String} :
    words name = ws ↔ String.join ws = name ∧ Reading (ws.map String.toList) := by
  have hlists : words name = ws ↔ wordsOf name.toList = ws.map String.toList := by
    rw [words]
    constructor
    · rintro rfl
      simp
    · intro h
      simp [h]
  have hjoin : (ws.map String.toList).flatten = name.toList ↔ String.join ws = name := by
    rw [← String.toList_inj, String.toList_join, List.flatMap_def]
  rw [hlists, wordsOf_eq_iff, hjoin]

theorem words_nonempty : ∀ w ∈ words name, w ≠ "" := by
  rintro _ hw rfl
  have hreading := (words_eq_iff.mp (Eq.refl (words name))).2
  exact (hreading.whole [] (List.mem_map_of_mem hw)).nonempty rfl

theorem words_join_of_run (h : run <:+: words name) : words (String.join run) = run :=
  words_eq_iff.mpr ⟨rfl, (words_eq_iff.mp rfl).2.run (h.map String.toList)⟩

/-- **Nothing is lost when a name is cut into words, none of which is empty, and any words that
stand next to each other in a name are the words of what they make up together.**  They are the
only words that make up the name and have cuts between them but none within. -/
theorem words_stable (name : String) :
    (∀ w ∈ words name, w ≠ "") ∧ String.join (words name) = name ∧
      (∀ run, run <:+: words name → words (String.join run) = run) ∧
        ∀ ws, words name = ws ↔ String.join ws = name ∧ Reading (ws.map String.toList) :=
  ⟨words_nonempty, join_words name, fun _ => words_join_of_run, fun _ => words_eq_iff⟩

/-- `X` starts a word for the small letter in front of it, `Id` for the one behind its capital. -/
theorem words_stable_order : ["X", "Id", "HTTP"] <:+: words "OrderXIdHTTPCode2B" ∧
    words "XIdHTTP" = ["X", "Id", "HTTP"] := by
  have hrun : ["X", "Id", "HTTP"] <:+: words "OrderXIdHTTPCode2B" :=
    ⟨["Order"], ["Code2", "B"], by decide +kernel⟩
  exact ⟨hrun, (words_stable "OrderXIdHTTPCode2B").2.2.1 _ hrun⟩

end Name

end Recast
