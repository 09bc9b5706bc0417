import Mathlib.Data.List.Forall2
import Recast.Eval.Basic

/-! # Sequence operators in lockstep

The sequence operators apply lambdas and build their result from the answers.  What
is asked of a result is asked here of two runs at once: they end alike, and a value
that they end with has a property.  Any such reading of two computations that goes
from parts to the whole is a `Lockstep`; a property of the runs of one computation is
the case where the second is not looked at.

- `Lockstep` — a clause for each way to compose computations.
- `operatorResult` — what a sequence operator makes of items and of what lambdas
  answer.
- `Lockstep.ends_sequenceOperator` — the operators meet it.
-/

namespace Recast

/-- A relation between computations, closed under composition. -/
structure Lockstep where
  /-- The two end alike, with `P` of the result if there is one. -/
  ends : {α : Type} → (α → Prop) → EvalM α → EvalM α → Prop
  ends_pure : ∀ {α : Type} {P : α → Prop} {a : α}, P a → ends P (pure a) (pure a)
  ends_throw : ∀ {α : Type} {P : α → Prop} {e : EvalError}, ends P (throw e) (throw e)
  ends_bind : ∀ {α β : Type} {P : α → Prop} {Q : β → Prop} {x y : EvalM α} {f g : α → EvalM β},
    ends P x y → (∀ a, P a → ends Q (f a) (g a)) → ends Q (x >>= f) (y >>= g)

/-- What a sequence operator ends with, given what holds of the items and of the answers of the
lambda. -/
def operatorResult (Item Answer : Value → Prop) (name : String) (v : Value) : Prop :=
  match name with
  | "Any" | "All" | "Contains" => ∃ b, v = .bool b
  | "Count" | "Sum" => ∃ n, v = .int n
  | "Where" | "OrderBy" | "OrderByDescending" | "Take" | "Skip" =>
    ∃ items, v = .list items ∧ ∀ item ∈ items, Item item
  | "Select" => ∃ answers, v = .list answers ∧ ∀ answer ∈ answers, Answer answer
  | "First" => Item v
  | "FirstOrDefault" => v = .null ∨ Item v
  | "Max" | "Min" => Answer v
  | _ => False

theorem operatorResult_cases {Item Answer : Value → Prop} {name : String} {v : Value}
    (h : operatorResult Item Answer name v) :
    ((∃ b, v = .bool b) ∨ ∃ n, v = .int n) ∨
      (∃ vs, v = .list vs ∧ ((∀ item ∈ vs, Item item) ∨ ∀ answer ∈ vs, Answer answer)) ∨
        v = .null ∨ Item v ∨ Answer v := by
  unfold operatorResult at h
  split at h <;> grind

theorem sortAscending_subset {keys items : List Value} {v : Value}
    (h : v ∈ sortAscending (keys.zip items)) : v ∈ items := by
  obtain ⟨⟨key, item⟩, hmem, rfl⟩ := List.mem_map.mp h
  exact (List.of_mem_zip ((sortBy_perm _ _).mem_iff.mp hmem)).2

theorem sortDescending_subset {keys items : List Value} {v : Value}
    (h : v ∈ sortDescending (keys.zip items)) : v ∈ items := by
  obtain ⟨⟨key, item⟩, hmem, rfl⟩ := List.mem_map.mp h
  exact (List.of_mem_zip ((sortBy_perm _ _).mem_iff.mp hmem)).2

namespace Lockstep

variable (S : Lockstep)

theorem ends_map {α β : Type} {P : α → Prop} {Q : β → Prop} {x y : EvalM α} {f : α → β}
    (h : S.ends P x y) (hf : ∀ a, P a → Q (f a)) : S.ends Q (f <$> x) (f <$> y) := by
  rw [map_eq_pure_bind, map_eq_pure_bind]
  exact S.ends_bind h fun a ha => S.ends_pure (hf a ha)

/-! ## Loops over the items -/

variable {self self' : Expr → EvalM Value} {f f' : Value} {items : List Value}
variable {Item Answer : Value → Prop}

/-- Applied to an item, the two lambdas end alike with an answer. -/
def Applies (self self' : Expr → EvalM Value) (Item Answer : Value → Prop) (f f' : Value) : Prop :=
  ∀ item, Item item → S.ends Answer (applyValue self f [item]) (applyValue self' f' [item])

section Loops

variable (hf : S.Applies self self' Item Answer f f')

include hf in
theorem ends_holds {item : Value} (hitem : Item item) :
    S.ends (fun _ => True) (holds self f item) (holds self' f' item) := by
  refine S.ends_bind (hf item hitem) fun v _ => ?_
  cases v with
  | bool b => exact S.ends_pure trivial
  | null => exact S.ends_pure trivial
  | _ => exact S.ends_throw

include hf in
theorem ends_anyHolds (hitems : ∀ v ∈ items, Item v) :
    S.ends (fun _ => True) (anyHolds self f items) (anyHolds self' f' items) := by
  induction items with
  | nil => exact S.ends_pure trivial
  | cons item items ih =>
      refine S.ends_bind (S.ends_holds hf (hitems item List.mem_cons_self)) fun b _ => ?_
      cases b with
      | true => exact S.ends_pure trivial
      | false => exact ih fun v hv => hitems v (List.mem_cons_of_mem _ hv)

include hf in
theorem ends_allHold (hitems : ∀ v ∈ items, Item v) :
    S.ends (fun _ => True) (allHold self f items) (allHold self' f' items) := by
  induction items with
  | nil => exact S.ends_pure trivial
  | cons item items ih =>
      refine S.ends_bind (S.ends_holds hf (hitems item List.mem_cons_self)) fun b _ => ?_
      cases b with
      | true => exact ih fun v hv => hitems v (List.mem_cons_of_mem _ hv)
      | false => exact S.ends_pure trivial

include hf in
theorem ends_keepHolding (hitems : ∀ v ∈ items, Item v) :
    S.ends (fun kept => ∀ v ∈ kept, Item v) (keepHolding self f items)
      (keepHolding self' f' items) := by
  induction items with
  | nil => exact S.ends_pure (by simp)
  | cons item items ih =>
      have hitem := hitems item List.mem_cons_self
      refine S.ends_bind (S.ends_holds hf hitem) fun keep _ => ?_
      refine S.ends_bind (ih fun v hv => hitems v (List.mem_cons_of_mem _ hv)) fun rest hrest => ?_
      apply S.ends_pure
      cases keep with
      | true => exact List.forall_mem_cons.mpr ⟨hitem, hrest⟩
      | false => exact hrest

include hf in
theorem ends_selected (hitems : ∀ v ∈ items, Item v) :
    S.ends (fun answers => ∀ v ∈ answers, Answer v) (selected self f items)
      (selected self' f' items) := by
  induction items with
  | nil => exact S.ends_pure (by simp)
  | cons item items ih =>
      refine S.ends_bind (hf item (hitems item List.mem_cons_self)) fun v hv => ?_
      refine S.ends_bind (ih fun v hv => hitems v (List.mem_cons_of_mem _ hv)) fun vs hvs => ?_
      exact S.ends_pure (List.forall_mem_cons.mpr ⟨hv, hvs⟩)

include hf in
theorem ends_sumFrom (hitems : ∀ v ∈ items, Item v) {total : Int} :
    S.ends (fun _ => True) (sumFrom self f total items) (sumFrom self' f' total items) := by
  induction items generalizing total with
  | nil => exact S.ends_pure trivial
  | cons item items ih =>
      refine S.ends_bind (hf item (hitems item List.mem_cons_self)) fun v _ => ?_
      dsimp only
      split
      · exact ih fun v hv => hitems v (List.mem_cons_of_mem _ hv)
      · exact S.ends_throw

include hf in
theorem ends_extremeFrom (hitems : ∀ v ∈ items, Item v) {wanted : Ordering} {best : Option Value}
    (hbest : ∀ v ∈ best, Answer v) :
    S.ends (fun best => ∀ v ∈ best, Answer v) (extremeFrom self f wanted best items)
      (extremeFrom self' f' wanted best items) := by
  induction items generalizing best with
  | nil => exact S.ends_pure hbest
  | cons item items ih =>
      refine S.ends_bind (hf item (hitems item List.mem_cons_self)) fun v hv => ?_
      refine ih (fun v hv => hitems v (List.mem_cons_of_mem _ hv)) ?_
      intro w hw
      obtain rfl := Option.mem_some_iff.mp hw
      cases best with
      | none => exact hv
      | some b =>
          dsimp only
          split
          · exact hv
          · exact hbest b rfl

end Loops

/-! ## The operators -/

variable {arg? arg?' : Option Value}

theorem ends_keepIf (harg : Option.Rel (S.Applies self self' Item Answer) arg? arg?')
    (hitems : ∀ v ∈ items, Item v) :
    S.ends (fun kept => ∀ v ∈ kept, Item v) (keepIf self arg? items)
      (keepIf self' arg?' items) := by
  cases harg with
  | none => exact S.ends_pure hitems
  | some hf => exact S.ends_keepHolding hf hitems

theorem ends_withArgument {P : Value → Prop} {use use' : Value → EvalM Value}
    (harg : Option.Rel (S.Applies self self' Item Answer) arg? arg?')
    (huse : ∀ f f', S.Applies self self' Item Answer f f' → S.ends P (use f) (use' f')) :
    S.ends P (withArgument arg? use) (withArgument arg?' use') := by
  cases harg with
  | none => exact S.ends_throw
  | some hf => exact huse _ _ hf

/-- An operator that ends with a value ends with what its name says.  `Contains` compares the items
with the argument itself, `Take` and `Skip` read a number off it. -/
theorem ends_sequenceOperator {name : String}
    (harg : Option.Rel (S.Applies self self' Item Answer) arg? arg?')
    (hcount : arg?.bind Value.asInt64? = arg?'.bind Value.asInt64?)
    (hcontains : name = "Contains" →
      arg?.any (fun v => items.any (·.sameValue v)) = arg?'.any fun v => items.any (·.sameValue v))
    (hitems : ∀ v ∈ items, Item v) :
    S.ends (operatorResult Item Answer name) (sequenceOperator self name items arg?)
      (sequenceOperator self' name items arg?') := by
  have hkept := S.ends_keepIf harg hitems
  have hwith : ∀ {P : Value → Prop} {use use' : Value → EvalM Value},
      (∀ f f', S.Applies self self' Item Answer f f' → S.ends P (use f) (use' f')) →
        S.ends P (withArgument arg? use) (withArgument arg?' use') := S.ends_withArgument harg
  unfold sequenceOperator
  dsimp only
  rw [hcount]
  split
  case h_12 | h_13 =>
    -- Max and Min
    refine hwith fun f f' hf => ?_
    refine S.ends_bind (S.ends_extremeFrom hf hitems (by simp)) fun best hbest => ?_
    cases best with
    | none => exact S.ends_throw
    | some v => exact S.ends_pure (hbest v rfl)
  · -- Any
    cases harg with
    | none => exact S.ends_pure ⟨_, rfl⟩
    | some hf => exact S.ends_map (S.ends_anyHolds hf hitems) fun b _ => ⟨b, rfl⟩
  · -- All
    exact hwith fun f f' hf => S.ends_map (S.ends_allHold hf hitems) fun b _ => ⟨b, rfl⟩
  · -- Count
    exact S.ends_map hkept fun kept _ => ⟨_, rfl⟩
  · -- Where
    exact S.ends_map hkept fun kept h => ⟨kept, rfl, h⟩
  · -- Select
    exact hwith fun f f' hf =>
      S.ends_map (S.ends_selected hf hitems) fun answers h => ⟨answers, rfl, h⟩
  · -- First
    refine S.ends_bind hkept fun kept hkept => ?_
    cases kept with
    | nil => exact S.ends_throw
    | cons v vs => exact S.ends_pure (hkept v List.mem_cons_self)
  · -- FirstOrDefault
    refine S.ends_map hkept fun kept hkept => ?_
    cases kept with
    | nil => exact .inl rfl
    | cons v vs => exact .inr (hkept v List.mem_cons_self)
  · -- Contains
    rw [hcontains rfl]
    exact S.ends_pure ⟨_, rfl⟩
  · -- OrderBy
    refine hwith fun f f' hf => S.ends_map (S.ends_selected hf hitems) fun keys _ => ⟨_, rfl, ?_⟩
    exact fun v hv => hitems v (sortAscending_subset hv)
  · -- OrderByDescending
    refine hwith fun f f' hf => S.ends_map (S.ends_selected hf hitems) fun keys _ => ⟨_, rfl, ?_⟩
    exact fun v hv => hitems v (sortDescending_subset hv)
  · -- Sum
    exact hwith fun f f' hf => S.ends_map (S.ends_sumFrom hf hitems) fun n _ => ⟨n, rfl⟩
  · -- Take
    exact S.ends_pure ⟨_, rfl, fun v hv => hitems v (List.mem_of_mem_take hv)⟩
  · -- Skip
    exact S.ends_pure ⟨_, rfl, fun v hv => hitems v (List.mem_of_mem_drop hv)⟩
  · exact S.ends_throw

end Lockstep

end Recast
