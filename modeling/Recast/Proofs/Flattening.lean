import Recast.Proofs.Planning
import Recast.Proofs.WordCuts

/-! # Flattened names

A name that no member has is read as a chain of members whose names make up its words.
The search puts words together and takes what is left apart again, level by level; that
loses no division of the words, for cutting a name at one of its words leaves the words
behind it as they were.

- `Name.isPascal_join_of_suffix` — what is left of an identifier is an identifier.
- `Registry.Flattens` — a chain whose names are the words put into groups.
- `Registry.chainFor?_flattens` — a chain is found exactly if there is one, and it is one.
-/

namespace Recast

/-! ## §1  Identifiers -/

namespace Text

theorem isDecimalDigit_of_isUppercase {c : Char} (h : isUppercase c = true) :
    isDecimalDigit c = false :=
  covered_of_disjoint (by decide +kernel) h

theorem isCapital_of_isUppercase {c : Char} (hcase : isUppercase c = true)
    (hname : (isLetter c || isDecimalDigit c || c == '_') = true) : isCapital c = true := by
  have hletter : isLetter c = true := by
    simp only [isDecimalDigit_of_isUppercase hcase, Bool.or_false, Bool.or_eq_true,
      beq_iff_eq] at hname
    rcases hname with hletter | rfl
    · exact hletter
    · exact absurd hcase (by decide)
  rw [isCapital, hcase, hletter]
  rfl

end Text

/-! ## §2  What is left of a name -/

namespace Name

open Text

variable {name : String} {ws : List String}

theorem isPascal_eq_true : isPascal name = true ↔ ∃ c rest, name.toList = c :: rest ∧
    isCapital c = true ∧ ∀ d ∈ rest, (isLetter d || isDecimalDigit d || d == '_') = true := by
  rw [isPascal]
  split
  · rename_i hname
    simp [hname]
  · rename_i c rest hname
    simp only [hname, List.cons.injEq, Bool.and_eq_true, List.all_eq_true]
    constructor
    · exact fun h => ⟨c, rest, ⟨rfl, rfl⟩, h⟩
    · rintro ⟨_, _, ⟨rfl, rfl⟩, h⟩
      exact h

theorem isPascal_join_of_suffix (hname : isPascal name = true) (h : ws <:+ words name)
    (hws : ws ≠ []) : isPascal (String.join ws) = true := by
  obtain ⟨c, rest, hcs, hfirst, hrest⟩ := isPascal_eq_true.mp hname
  obtain ⟨w, later, hwords⟩ := wordsOf_cons c rest
  have hflat := flatten_wordsOf name.toList
  obtain ⟨vs, hvs, rfl⟩ := List.suffix_map_iff.mp h
  rw [hcs, hwords] at hvs hflat
  rcases List.suffix_cons_iff.mp hvs with rfl | hlater
  · rwa [← String.ofList_toList (s := String.join _), toList_join_words, hflat, ← hcs,
      String.ofList_toList]
  · match vs, hlater, hws with
    | v :: vs, hlater, _ =>
        obtain ⟨d, v, rfl, hd⟩ := isUppercase_of_later_word hwords v
          (hlater.subset List.mem_cons_self)
        -- the characters of later words are among those behind the first one
        have hlegal : ∀ e ∈ ((d :: v) :: vs).flatten,
            (isLetter e || isDecimalDigit e || e == '_') = true := by
          intro e he
          obtain ⟨u, hu, heu⟩ := List.mem_flatten.mp he
          simp only [List.flatten_cons, List.cons_append, List.cons.injEq, true_and] at hflat
          refine hrest e (hflat ▸ List.mem_append_right _ ?_)
          exact List.mem_flatten.mpr ⟨u, hlater.subset hu, heu⟩
        simp only [List.flatten_cons, List.cons_append] at hlegal
        refine isPascal_eq_true.mpr ⟨d, v ++ vs.flatten, ?_, ?_, ?_⟩
        · rw [toList_join_words]
          rfl
        · exact isCapital_of_isUppercase hd (hlegal d List.mem_cons_self)
        · exact fun e he => hlegal e (List.mem_cons_of_mem _ he)

theorem length_join_lt {word : String} {g : List String} (h : words name = word :: g ++ ws) :
    (String.join ws).length < name.length := by
  have hword : word ≠ "" :=
    words_nonempty word (h ▸ List.mem_append_left ws List.mem_cons_self)
  have hlength : name.length = word.length + (String.join g).length + (String.join ws).length := by
    rw [← join_words name, h]
    simp only [← String.length_toList, String.toList_join, List.flatMap_append,
      List.flatMap_cons, List.length_append]
  have hpos : 0 < word.length := by
    simpa [Nat.pos_iff_ne_zero] using hword
  omega

end Name

/-! ## §3  Chains for the words of a name -/

namespace Registry

variable {r : Registry}

/-- The words are divided into groups, each of which names the next member of the chain. -/
structure Flattens (r : Registry) (source : Ty) (words : List String) (groups : List (List String))
    (chain : List Member) : Prop where
  divided : groups.flatten = words
  nonempty : ∀ g ∈ groups, g ≠ []
  isChain : r.IsChain source chain
  named : chain.map (·.name) = groups.map String.join

namespace Flattens

variable {source : Ty} {m : Member} {words g : List String} {groups : List (List String)}
  {chain : List Member}

theorem single (hwords : words ≠ []) (hm : r.member? source (String.join words) = some m) :
    r.Flattens source words [words] [m] where
  divided := by simp
  nonempty := by simpa using hwords
  isChain := ⟨by rw [name_of_member? hm]; exact hm, trivial⟩
  named := by simp [name_of_member? hm]

theorem cons (hg : g ≠ []) (hm : r.member? source (String.join g) = some m)
    (h : r.Flattens m.ty words groups chain) :
    r.Flattens source (g ++ words) (g :: groups) (m :: chain) where
  divided := by simp [h.divided]
  nonempty := by simpa using ⟨hg, h.nonempty⟩
  isChain := ⟨by rw [name_of_member? hm]; exact hm, h.isChain⟩
  named := by simp [name_of_member? hm, h.named]

theorem uncons (h : r.Flattens source words (g :: groups) chain) :
    g ≠ [] ∧ ∃ m rest, chain = m :: rest ∧ r.member? source (String.join g) = some m ∧
      words = g ++ groups.flatten ∧ r.Flattens m.ty groups.flatten groups rest := by
  obtain ⟨rfl, hne, hchain, hnamed⟩ := h
  cases chain with
  | nil => cases hnamed
  | cons m rest =>
      obtain ⟨hname, hrest⟩ := List.cons.inj hnamed
      exact ⟨hne g List.mem_cons_self, m, rest, rfl, hname ▸ hchain.1, rfl,
        ⟨rfl, fun g hg => hne g (List.mem_cons_of_mem _ hg), hchain.2, hrest⟩⟩

/-- The names of the chain make up what the words do. -/
theorem join_names (h : r.Flattens source words groups chain) :
    String.join (chain.map (·.name)) = String.join words := by
  rw [h.named, ← h.divided, ← String.toList_inj]
  simp [String.toList_join, List.flatMap_map, ← List.flatMap_id, List.flatMap_assoc]

end Flattens

/-! ## §4  The search -/

theorem chainWithin?_flattens : ∀ {n : Nat} {source : Ty} {name : String} {chain : List Member},
    r.chainWithin? n source name = some chain →
      (∃ m, r.member? source name = some m ∧ chain = [m]) ∨
        Name.isPascal name = true ∧
          ∃ groups, 2 ≤ groups.length ∧ r.Flattens source (Name.words name) groups chain
  | 0, _, _, _, h => by cases h
  | n + 1, source, name, chain, h => by
      rw [chainWithin?] at h
      split at h
      · rename_i m hm
        cases h
        exact .inl ⟨m, hm, rfl⟩
      · split at h
        · rename_i hpascal
          obtain ⟨i, hi, hfound⟩ := List.exists_of_findSome?_eq_some h
          simp only [Option.bind_eq_bind, Option.bind_eq_some_iff,
            Option.some.injEq] at hfound
          obtain ⟨first, hfirst, rest, hrest, rfl⟩ := hfound
          rw [List.mem_range] at hi
          have hhead : (Name.words name).take (i + 1) ≠ [] := by
            rw [← List.length_pos_iff, List.length_take]
            omega
          have htail : (Name.words name).drop (i + 1) ≠ [] := by
            rw [← List.length_pos_iff, List.length_drop]
            omega
          have hlater : ∃ groups, 0 < groups.length ∧
              r.Flattens first.ty ((Name.words name).drop (i + 1)) groups rest := by
            rcases chainWithin?_flattens hrest with ⟨m, hm, rfl⟩ | ⟨-, groups, hgroups, hflattens⟩
            · exact ⟨[_], Nat.one_pos, .single htail hm⟩
            · rw [Name.words_join_of_run (List.drop_suffix _ _).isInfix] at hflattens
              exact ⟨groups, Nat.lt_of_lt_of_le Nat.two_pos hgroups, hflattens⟩
          obtain ⟨groups, hgroups, hflattens⟩ := hlater
          replace hflattens := hflattens.cons hhead hfirst
          rw [List.take_append_drop] at hflattens
          exact .inr ⟨hpascal, _ :: groups, Nat.succ_le_succ hgroups, hflattens⟩
        · cases h

/-- A chain for a name is found if there is one, provided that every letter may be a step. -/
theorem chainWithin?_isSome : ∀ {n : Nat} {source : Ty} {name : String}
    {groups : List (List String)} {chain : List Member}, name.length < n →
      Name.isPascal name = true → groups ≠ [] →
        r.Flattens source (Name.words name) groups chain →
          (r.chainWithin? n source name).isSome = true
  | n + 1, source, name, g :: groups, chain, hn, hpascal, _, h => by
      obtain ⟨hg, first, rest, rfl, hfirst, hwords, hrest⟩ := h.uncons
      rw [chainWithin?]
      split
      · rfl
      · rename_i hnone
        rw [if_pos hpascal]
        have hgroups : groups ≠ [] := by
          rintro rfl
          rw [List.flatten_nil, List.append_nil] at hwords
          rw [← hwords, Name.join_words, hnone] at hfirst
          cases hfirst
        have hlast : groups.flatten ≠ [] := by
          obtain ⟨g', groups, rfl⟩ := List.exists_cons_of_ne_nil hgroups
          simp [hrest.uncons.1]
        have hsuffix : groups.flatten <:+ Name.words name := ⟨g, hwords.symm⟩
        have hlength := List.length_pos_iff.mpr hg
        refine List.findSome?_isSome_iff.mpr ⟨g.length - 1, ?_, ?_⟩
        · have := List.length_pos_iff.mpr hlast
          rw [List.mem_range, hwords, List.length_append]
          omega
        · have hcut : g.length - 1 + 1 = g.length := by omega
          have hleft : (r.chainWithin? n first.ty (String.join groups.flatten)).isSome = true := by
            refine chainWithin?_isSome ?_ (Name.isPascal_join_of_suffix hpascal hsuffix hlast)
              hgroups (Name.words_join_of_run hsuffix.isInfix ▸ hrest)
            obtain ⟨word, g, rfl⟩ := List.exists_cons_of_ne_nil hg
            have := Name.length_join_lt hwords
            omega
          obtain ⟨found, hfound⟩ := Option.isSome_iff_exists.mp hleft
          simp [hcut, hwords, hfirst, hfound]

/-- **A chain is found for a name exactly if the source has a member of that name, or the name is
made of words that can be put into two or more groups, each naming a member of what the one before
it names.**  What is found is such a chain, the names of which make up the name, and it is the
member itself if there is one. -/
theorem chainFor?_flattens (r : Registry) (source : Ty) (name : String) :
    ((r.chainFor? source name).isSome = true ↔
      (r.member? source name).isSome = true ∨ Name.isPascal name = true ∧
        ∃ groups chain, 2 ≤ groups.length ∧ r.Flattens source (Name.words name) groups chain) ∧
    (∀ chain, r.chainFor? source name = some chain →
      String.join (chain.map (·.name)) = name ∧
        ((∃ m, r.member? source name = some m ∧ chain = [m]) ∨
          Name.isPascal name = true ∧
            ∃ groups, 2 ≤ groups.length ∧ r.Flattens source (Name.words name) groups chain)) ∧
    ∀ m, r.member? source name = some m → r.chainFor? source name = some [m] := by
  refine ⟨⟨fun h => ?_, ?_⟩, fun chain h => ?_, fun _ => chainFor?_member⟩
  · obtain ⟨chain, hchain⟩ := Option.isSome_iff_exists.mp h
    rcases chainWithin?_flattens hchain with ⟨m, hm, -⟩ | ⟨hpascal, groups, hgroups, hflattens⟩
    · exact .inl (Option.isSome_iff_exists.mpr ⟨m, hm⟩)
    · exact .inr ⟨hpascal, groups, chain, hgroups, hflattens⟩
  · rintro (h | ⟨hpascal, groups, chain, hgroups, hflattens⟩)
    · obtain ⟨m, hm⟩ := Option.isSome_iff_exists.mp h
      rw [chainFor?_member hm]
      rfl
    · refine chainWithin?_isSome (Nat.lt_succ_self _) hpascal ?_ hflattens
      exact List.length_pos_iff.mp (Nat.lt_of_lt_of_le Nat.two_pos hgroups)
  · have hfound := chainWithin?_flattens h
    refine ⟨?_, hfound⟩
    rcases hfound with ⟨m, hm, rfl⟩ | ⟨-, groups, -, hflattens⟩
    · simp [String.join, name_of_member? hm]
    · rw [hflattens.join_names, Name.join_words]

end Registry

end Recast
