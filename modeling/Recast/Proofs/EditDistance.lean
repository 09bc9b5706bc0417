import Mathlib.Order.Bounds.Defs
import Recast.Name

/-! # Edit distance

The distance of two names is kept a row of the table at a time: after some letters of one
name, the row holds the distances to every front part of the other.  It ends with the
Levenshtein distance of the names in small letters, which is a metric on names up to
ASCII case.

- `Name.Edits` — one word made into another from left to right, with the number of edits.
- `Name.levenshtein` — the distance by recursion on both words, which is the least number of
  edits (`Name.levenshtein_isLeast`).
- `Name.foldl_nextRow` — what the row holds after any number of letters.
- `Name.distance_isLevenshtein` — the distance of names, and its laws.
-/

namespace Recast.Name

/-! ## §1  Edits -/

section Edits

variable {α : Type}

/-- The first word becomes the second by as many edits, which are made from left to right. -/
inductive Edits : List α → List α → Nat → Prop
  | done : Edits [] [] 0
  | keep {as bs n} (a : α) (h : Edits as bs n) : Edits (a :: as) (a :: bs) n
  | replace {as bs n} (a b : α) (h : Edits as bs n) : Edits (a :: as) (b :: bs) (n + 1)
  | delete {as bs n} (a : α) (h : Edits as bs n) : Edits (a :: as) bs (n + 1)
  | insert {as bs n} (b : α) (h : Edits as bs n) : Edits as (b :: bs) (n + 1)

namespace Edits

variable {as bs as' bs' : List α} {m n : Nat}

theorem deleteAll : ∀ as : List α, Edits as [] as.length
  | [] => .done
  | a :: as => .delete a (deleteAll as)

theorem insertAll : ∀ bs : List α, Edits [] bs bs.length
  | [] => .done
  | b :: bs => .insert b (insertAll bs)

theorem append (h : Edits as bs m) (h' : Edits as' bs' n) :
    Edits (as ++ as') (bs ++ bs') (n + m) := by
  induction h with
  | done => exact h'
  | keep a _ ih => exact .keep a ih
  | replace a b _ ih => exact .replace a b ih
  | delete a _ ih => exact .delete a ih
  | insert b _ ih => exact .insert b ih

theorem reverse (h : Edits as bs n) : Edits as.reverse bs.reverse n := by
  induction h with
  | done => exact .done
  | keep a _ ih => simpa using ih.append (.keep a .done)
  | replace a b _ ih => simpa [Nat.add_comm] using ih.append (.replace a b .done)
  | delete a _ ih => simpa [Nat.add_comm] using ih.append (.delete a .done)
  | insert b _ ih => simpa [Nat.add_comm] using ih.append (.insert b .done)

/-- Edits of a word that has been edited come to no more edits of the first word.  What was
inserted and is deleted again costs nothing. -/
theorem trans {as bs cs : List α} {m n : Nat} :
    Edits as bs m → Edits bs cs n → ∃ k, k ≤ m + n ∧ Edits as cs k
  | .done, h => ⟨_, by omega, h⟩
  | .delete a h, h' =>
      let ⟨k, hk, hc⟩ := trans h h'
      ⟨k + 1, by omega, .delete a hc⟩
  | h, .insert c h' =>
      let ⟨k, hk, hc⟩ := trans h h'
      ⟨k + 1, by omega, .insert c hc⟩
  | .keep _ h, .keep a h' =>
      let ⟨k, hk, hc⟩ := trans h h'
      ⟨k, hk, .keep a hc⟩
  | .keep a h, .replace _ c h' | .replace a _ h, .keep c h' | .replace a _ h, .replace _ c h' =>
      let ⟨k, hk, hc⟩ := trans h h'
      ⟨k + 1, by omega, .replace a c hc⟩
  | .keep a h, .delete _ h' | .replace a _ h, .delete _ h' =>
      let ⟨k, hk, hc⟩ := trans h h'
      ⟨k + 1, by omega, .delete a hc⟩
  | .insert _ h, .keep c h' | .insert _ h, .replace _ c h' =>
      let ⟨k, hk, hc⟩ := trans h h'
      ⟨k + 1, by omega, .insert c hc⟩
  | .insert _ h, .delete _ h' =>
      let ⟨k, hk, hc⟩ := trans h h'
      ⟨k, by omega, hc⟩
termination_by as.length + bs.length + cs.length

theorem eq_of_zero (h : Edits as bs n) (hn : n = 0) : as = bs := by
  induction h with
  | done => rfl
  | keep a _ ih => rw [ih hn]
  | replace | delete | insert => cases hn

end Edits

end Edits

section Distance

variable {α : Type} [DecidableEq α]

/-! ## §2  The distance by recursion -/

/-- The Levenshtein distance.  Equal first letters stay; otherwise one of them is replaced, deleted
or inserted, whichever is best. -/
def levenshtein : List α → List α → Nat
  | [], bs => bs.length
  | as, [] => as.length
  | a :: as, b :: bs =>
    if a = b then levenshtein as bs
    else 1 + min (levenshtein as bs) (min (levenshtein as (b :: bs)) (levenshtein (a :: as) bs))
termination_by as bs => as.length + bs.length

variable {a b : α} {as bs cs : List α} {n : Nat}

@[simp] theorem levenshtein_nil_left : levenshtein [] bs = bs.length := by rw [levenshtein]

@[simp] theorem levenshtein_nil_right : levenshtein as [] = as.length := by
  cases as with
  | nil => rw [levenshtein]
  | cons a as =>
      rw [levenshtein]
      rintro ⟨⟩

@[simp] theorem levenshtein_cons_self : levenshtein (a :: as) (a :: bs) = levenshtein as bs := by
  rw [levenshtein, if_pos rfl]

theorem levenshtein_cons_of_ne (h : a ≠ b) : levenshtein (a :: as) (b :: bs) =
    1 + min (levenshtein as bs) (min (levenshtein as (b :: bs)) (levenshtein (a :: as) bs)) := by
  rw [levenshtein, if_neg h]

theorem levenshtein_comm (as bs : List α) : levenshtein as bs = levenshtein bs as := by
  fun_induction levenshtein as bs with
  | case1 bs => rw [levenshtein_nil_right]
  | case2 as _ => rw [levenshtein_nil_left]
  | case3 as b bs ih => rw [levenshtein_cons_self, ih]
  | case4 a as b bs hne ih ihLeft ihRight =>
      rw [levenshtein_cons_of_ne (Ne.symm hne), ← ih, ← ihLeft, ← ihRight]
      simp only [Nat.min_comm]

/-- A letter more on the left costs at most one, if leaving one out on the right does. -/
theorem levenshtein_cons_le_of (hskip : ∀ b bs, levenshtein as bs ≤ levenshtein as (b :: bs) + 1)
    (a : α) (bs : List α) : levenshtein (a :: as) bs ≤ levenshtein as bs + 1 := by
  cases bs with
  | nil => simp
  | cons b bs =>
      by_cases hab : a = b
      · subst hab
        rw [levenshtein_cons_self]
        exact hskip a bs
      · rw [levenshtein_cons_of_ne hab]
        omega

theorem levenshtein_le_cons_right (as : List α) :
    ∀ b bs, levenshtein as bs ≤ levenshtein as (b :: bs) + 1 := by
  induction as with
  | nil =>
      intro b bs
      rw [levenshtein_nil_left, levenshtein_nil_left, List.length_cons]
      omega
  | cons a as ih =>
      intro b bs
      have hless := levenshtein_cons_le_of ih a bs
      by_cases hab : a = b
      · subst hab
        rwa [levenshtein_cons_self]
      · have hskip := ih b bs
        rw [levenshtein_cons_of_ne hab]
        omega

theorem levenshtein_cons_le (a : α) (as bs : List α) :
    levenshtein (a :: as) bs ≤ levenshtein as bs + 1 :=
  levenshtein_cons_le_of (levenshtein_le_cons_right as) a bs

theorem levenshtein_le_cons_left (a : α) (as bs : List α) :
    levenshtein as bs ≤ levenshtein (a :: as) bs + 1 := by
  rw [levenshtein_comm as, levenshtein_comm (a :: as)]
  exact levenshtein_le_cons_right bs a as

/-- The recursion without asking for equal letters first. -/
theorem levenshtein_cons (a b : α) (as bs : List α) : levenshtein (a :: as) (b :: bs) =
    min (min (levenshtein as bs + if a = b then 0 else 1) (levenshtein (a :: as) bs + 1))
      (levenshtein as (b :: bs) + 1) := by
  by_cases hab : a = b
  · subst hab
    have hleft := levenshtein_le_cons_left a as bs
    have hright := levenshtein_le_cons_right as a bs
    rw [levenshtein_cons_self, if_pos rfl]
    omega
  · rw [levenshtein_cons_of_ne hab, if_neg hab]
    omega

/-! ## §3  The least number of edits -/

theorem Edits.levenshtein_le (h : Edits as bs n) : levenshtein as bs ≤ n := by
  induction h with
  | done => simp
  | keep a _ ih => rwa [levenshtein_cons_self]
  | @replace as bs n a b _ ih =>
      rw [levenshtein_cons]
      split <;> omega
  | @delete as bs n a _ ih =>
      have hcons := levenshtein_cons_le a as bs
      omega
  | @insert as bs n b _ ih =>
      have hcons := levenshtein_cons_le b bs as
      rw [levenshtein_comm, levenshtein_comm bs] at hcons
      omega

theorem edits_levenshtein (as bs : List α) : Edits as bs (levenshtein as bs) := by
  fun_induction levenshtein as bs with
  | case1 bs => exact .insertAll bs
  | case2 as _ => exact .deleteAll as
  | case3 as b bs ih => exact .keep b ih
  | case4 a as b bs hne ih ihLeft ihRight =>
      rw [Nat.add_comm 1]
      rcases Nat.le_total (levenshtein as (b :: bs)) (levenshtein (a :: as) bs) with h | h
      · rw [Nat.min_eq_left h]
        rcases Nat.le_total (levenshtein as bs) (levenshtein as (b :: bs)) with h' | h'
        · rw [Nat.min_eq_left h']
          exact .replace a b ih
        · rw [Nat.min_eq_right h']
          exact .delete a ihLeft
      · rw [Nat.min_eq_right h]
        rcases Nat.le_total (levenshtein as bs) (levenshtein (a :: as) bs) with h' | h'
        · rw [Nat.min_eq_left h']
          exact .replace a b ih
        · rw [Nat.min_eq_right h']
          exact .insert b ihRight

theorem levenshtein_isLeast (as bs : List α) :
    IsLeast {n | Edits as bs n} (levenshtein as bs) :=
  ⟨edits_levenshtein as bs, fun _ h => Edits.levenshtein_le h⟩

theorem levenshtein_triangle (as bs cs : List α) :
    levenshtein as cs ≤ levenshtein as bs + levenshtein bs cs := by
  obtain ⟨k, hk, h⟩ := (edits_levenshtein as bs).trans (edits_levenshtein bs cs)
  exact Nat.le_trans ((levenshtein_isLeast as cs).2 h) hk

theorem levenshtein_eq_zero_iff : levenshtein as bs = 0 ↔ as = bs := by
  constructor
  · exact (edits_levenshtein as bs).eq_of_zero
  · rintro rfl
    induction as with
    | nil => simp
    | cons a as ih => rw [levenshtein_cons_self, ih]

theorem levenshtein_reverse_le (as bs : List α) :
    levenshtein as.reverse bs.reverse ≤ levenshtein as bs :=
  Edits.levenshtein_le (edits_levenshtein as bs).reverse

theorem levenshtein_reverse (as bs : List α) :
    levenshtein as.reverse bs.reverse = levenshtein as bs := by
  have hback := levenshtein_reverse_le as.reverse bs.reverse
  rw [List.reverse_reverse, List.reverse_reverse] at hback
  exact Nat.le_antisymm (levenshtein_reverse_le as bs) hback

/-- The recursion at the last letters. -/
theorem levenshtein_snoc (a b : α) (as bs : List α) :
    levenshtein (as ++ [a]) (bs ++ [b]) =
      min (min (levenshtein as bs + if a = b then 0 else 1) (levenshtein (as ++ [a]) bs + 1))
        (levenshtein as (bs ++ [b]) + 1) := by
  have hcons := levenshtein_cons a b as.reverse bs.reverse
  have hleft := levenshtein_reverse (as ++ [a]) bs
  have hright := levenshtein_reverse as (bs ++ [b])
  rw [List.reverse_append, List.reverse_singleton, List.singleton_append] at hleft hright
  rw [← levenshtein_reverse (as ++ [a]), List.reverse_append, List.reverse_append,
    List.reverse_singleton, List.reverse_singleton, List.singleton_append, List.singleton_append,
    hcons, levenshtein_reverse, hleft, hright]

end Distance

/-! ## §4  The table by rows -/

/-- The distances of a word to `front` with one letter more of the rest, two letters, and so
on. -/
def entries (word front : List Char) : List Char → List Nat
  | [] => []
  | b :: rest => levenshtein word (front ++ [b]) :: entries word (front ++ [b]) rest

/-- The row of the table for a word: its distances to the front parts of the other word. -/
def rowOf (word bs : List Char) : List Nat := levenshtein word [] :: entries word [] bs

variable {word front bs : List Char} {a : Char}

theorem entries_nil_word : ∀ {bs front : List Char},
    entries [] front bs = List.range' (front.length + 1) bs.length
  | [], _ => rfl
  | b :: bs, front => by
      rw [entries, entries_nil_word, levenshtein_nil_left, List.length_append, List.length_singleton]
      rfl

/-- The first row counts the letters of the other word. -/
theorem rowOf_nil : rowOf [] bs = List.range (bs.length + 1) := by
  rw [rowOf, entries_nil_word, levenshtein_nil_left, List.range_eq_range']
  rfl

/-- Entry by entry: what is to the left and what is diagonally above are the distances for the
letters read so far, the latter without the new letter of the word. -/
theorem rowFrom_entries : ∀ {bs front : List Char},
    rowFrom a (levenshtein (word ++ [a]) front) (levenshtein word front) bs
      (entries word front bs) = entries (word ++ [a]) front bs
  | [], _ => rfl
  | b :: bs, front => by
      rw [entries, entries, rowFrom, ← levenshtein_snoc]
      exact congrArg _ rowFrom_entries

theorem nextRow_rowOf : nextRow bs (rowOf word bs) a = rowOf (word ++ [a]) bs := by
  have htop : levenshtein word [] + 1 = levenshtein (word ++ [a]) [] := by
    rw [levenshtein_nil_right, levenshtein_nil_right, List.length_append, List.length_singleton]
  rw [rowOf, rowOf, nextRow, htop, rowFrom_entries]

/-- After any letters the row is that of the word they make up. -/
theorem foldl_nextRow (as : List Char) : ∀ word : List Char,
    as.foldl (nextRow bs) (rowOf word bs) = rowOf (word ++ as) bs := by
  induction as with
  | nil =>
      intro word
      rw [List.append_nil]
      rfl
  | cons a as ih =>
      intro word
      rw [List.foldl_cons, nextRow_rowOf, ih, List.append_assoc, List.singleton_append]

theorem getLastD_entries : ∀ {bs front : List Char},
    (entries word front bs).getLastD (levenshtein word front) = levenshtein word (front ++ bs)
  | [], front => by simp [entries]
  | b :: bs, front => by
      rw [entries, List.getLastD_cons, getLastD_entries, List.append_assoc, List.singleton_append]

theorem distanceOf_eq_levenshtein (as bs : List Char) : distanceOf as bs = levenshtein as bs := by
  rw [distanceOf, ← rowOf_nil, foldl_nextRow, rowOf, List.getLastD_cons, getLastD_entries]
  rfl

/-! ## §5  Names -/

/-- The letters of a name, the capitals of ASCII made small. -/
def folded (name : String) : List Char := name.toList.map Char.toLower

/-- The distance of names is the Levenshtein distance of their letters without regard to ASCII
case.  It is the same in both directions, no longer than by way of a third name, and zero exactly
between names that differ in ASCII case at most. -/
theorem distance_isLevenshtein (a b c : String) :
    distance a b = levenshtein (folded a) (folded b) ∧
    distance a b = distance b a ∧
    distance a c ≤ distance a b + distance b c ∧
    (distance a b = 0 ↔ folded a = folded b) := by
  have hdistance : ∀ x y, distance x y = levenshtein (folded x) (folded y) := fun x y =>
    distanceOf_eq_levenshtein (folded x) (folded y)
  simp only [hdistance]
  exact ⟨trivial, levenshtein_comm _ _, levenshtein_triangle _ _ _, levenshtein_eq_zero_iff⟩

example : distance "Kitten" "sitting" = 3 := by decide

end Recast.Name
