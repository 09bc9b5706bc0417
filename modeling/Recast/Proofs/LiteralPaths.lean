import Recast.Proofs.PathSteps

/-! # Literal types along a path

A literal is never taken for a literal of another type on the way, except through the
members of two instances of one generic definition, whose arguments are not compared.

- `Configuration.InstancesAgree` — what is asked of those members.
- `Configuration.dataPath_literals_agree` — every leading part of a path that needs no
  custom lambda ends at one type, or at two that are not both literal.
-/

namespace Recast

open DataStep

namespace Configuration

open Registry (chainEnd)

variable (c : Configuration)

/-- Wherever a leading part of the path ends at two instances of one generic definition, the
members read next have no two different literal types. -/
def InstancesAgree (budget : Nat) (t : TypeTable) (model data : Ty) (path : List String) : Prop :=
  ∀ front name ms ds, front ++ [name] <+: path → c.Reads budget t model data front ms ds →
    c.sharesFormer (chainEnd model ms) (chainEnd data ds) = true →
      ∀ m d, c.types.member? (chainEnd model ms) name = some m →
        c.types.member? (chainEnd data ds) name = some d → c.LiteralsAgree m.ty d.ty

variable {c} {budget : Nat} {model data : Ty} {name : String} {path rest : List String}
  {m : Member} {ds : List Member} {t t' : TypeTable}

/-- A rule checks its literals itself. -/
theorem PlainStep.literals_agree (h : c.PlainStep model data name rest m t ds t')
    (hne : model ≠ data) (hstart : c.LiteralsAgree model data)
    (hinstances : c.sharesFormer model data = true →
      ∀ d, c.types.member? data name = some d → c.LiteralsAgree m.ty d.ty) :
    c.LiteralsAgree m.ty (chainEnd data ds) := by
  cases h with
  | alike htypes hd _ =>
      rcases htypes with hshares | hliterals
      · exact hinstances hshares _ hd
      · exact absurd hliterals (hstart.resolve_left hne)
  | rule _ _ _ _ _ _ hliterals => exact hliterals

/-- The members read first are those behind the empty leading part. -/
theorem InstancesAgree.atStart (h : c.InstancesAgree budget t model data (name :: rest))
    (hm : c.types.member? model name = some m) (hshares : c.sharesFormer model data = true) :
    ∀ d, c.types.member? data name = some d → c.LiteralsAgree m.ty d.ty :=
  fun d hd => h [] name [] [] (List.prefix_append [name] rest) Reads.nil hshares m d hm hd

theorem InstancesAgree.afterStep (h : c.InstancesAgree (budget + 1) t model data (name :: rest))
    (hne : model ≠ data) (hm : c.types.member? model name = some m)
    (hstep : c.PlainStep model data name rest m t ds t') :
    c.InstancesAgree budget t' m.ty (chainEnd data ds) rest := by
  intro front next ms' ds' hfront hreads
  have hshort := hstep.shortened ((List.prefix_append front [next]).trans hfront)
  have := h (name :: front) next _ _ (List.cons_prefix_cons.mpr ⟨rfl, hfront⟩)
    (.cons hne hm hshort hreads)
  rwa [Registry.chainEnd_append] at this

/-- By induction on the segments that may still be taken. -/
theorem dataPath_literals_agree : ∀ {budget : Nat} {model data : Ty} {path front : List String}
    {steps : List DataStep} {t t' : TypeTable},
    Returns (c.dataPath model data path budget) t steps t' →
      steps.any (·.isCustom) = false → c.LiteralsAgree model data →
      c.InstancesAgree budget t model data path → front <+: path →
        ∃ ms ds rest, c.Reads budget t model data front ms ds ∧
          steps = appendMembers [] (ds ++ rest) ∧
          c.LiteralsAgree (chainEnd model ms) (chainEnd data ds)
  | budget, model, data, path, [], steps, t, t', h, hplain, hstart, _, _ => by
      obtain ⟨ds, rfl⟩ := dataPath_plain h hplain
      exact ⟨[], [], ds, .nil, rfl, hstart⟩
  | 0, _, _, _ :: _, _ :: _, _, _, _, h, _, _, _, _ => by
      simp [dataPath, followPath] at h
  | budget + 1, model, data, name :: path, first :: front, steps, t, t', h, hplain, hstart,
      hinstances, hfirst => by
      obtain ⟨rfl, hfront⟩ := List.cons_prefix_cons.mp hfirst
      by_cases hsame : model = data
      · -- From here on both sides read the same members.
        subst hsame
        obtain ⟨-, ms, hms, rfl, -⟩ := returns_dataPath_same.mp h
        obtain ⟨back, rfl⟩ := hfront
        rw [← List.cons_append] at hms
        obtain ⟨ms, rest, hfront, -, rfl⟩ := Registry.requireMembers_append.mp hms
        exact ⟨ms, ms, rest, .same (.inr (Nat.succ_pos _)) hfront, rfl, .inl rfl⟩
      · -- The two types differ: one plain step, and then the rest of the path.
        obtain ⟨a, t₁, more, ha, hmore, rfl⟩ := (returns_dataPath_cons "" hsame).mp h
        rw [join_any, Bool.or_eq_false_iff] at hplain
        have hcustom : a.step.isCustom = false := by simpa [appendStep_any] using hplain.1
        obtain ⟨m, ds, hm, hstep, rfl⟩ := returns_advance_plain.mp ⟨ha, hcustom⟩
        have hnext := hstep.literals_agree hsame hstart (hinstances.atStart hm)
        obtain ⟨ms, ds', rest, hreads, rfl, hagree⟩ := dataPath_literals_agree hmore hplain.2 hnext
          (hinstances.afterStep hsame hm hstep) hfront
        refine ⟨m :: ms, ds ++ ds', rest, .cons hsame hm (hstep.shortened hfront) hreads, ?_, ?_⟩
        · rw [List.append_assoc]
          exact join_members
        · rw [Registry.chainEnd_append]
          exact hagree

/-! ### Wrapped values -/

namespace Wrapped

def line : Ty := .declared 1

def lineModel : Ty := .declared 2

def order : Ty := .declared 3

def orderModel : Ty := .declared 4

def wrap (t : Ty) : Ty := .inst 0 [t]

def registry : Registry :=
  { declarations := [.generic "Wrap" 1 none [⟨"Item", .param 0⟩],
      .record "Line" none [⟨"Cost", .int32⟩], .record "LineModel" none [⟨"Price", .int32⟩],
      .record "Order" none [⟨"First", wrap line⟩, ⟨"Total", wrap .int32⟩],
      .record "OrderModel" none [⟨"First", wrap lineModel⟩, ⟨"Total", wrap .string⟩]] }

def config : Configuration :=
  { types := registry,
    maps := [
      { source := order
        destination := orderModel
        rules := [{ member := ⟨"First", wrap lineModel⟩, source := [⟨"First", wrap line⟩] },
          { member := ⟨"Total", wrap .string⟩, source := [⟨"Total", wrap .int32⟩] }] },
      { source := line
        destination := lineModel
        rules := [{ member := ⟨"Price", .int32⟩, source := [⟨"Cost", .int32⟩] }] }] }

end Wrapped

open Wrapped in
/-- A path through the mapping of the orders, two instances and the mapping of the lines. -/
theorem dataPath_literals_agree_lines :
    config.InstancesAgree 3 {} orderModel order ["First", "Item", "Price"] ∧
      ∃ ms ds rest, config.Reads 3 {} orderModel order ["First", "Item", "Price"] ms ds ∧
        [.members [⟨"First", wrap line⟩, ⟨"Item", line⟩, ⟨"Cost", .int32⟩]] =
          appendMembers [] (ds ++ rest) ∧
        config.LiteralsAgree (chainEnd orderModel ms) (chainEnd order ds) := by
  have hrun : Returns (config.dataPath orderModel order ["First", "Item", "Price"] 3) {}
      [.members [⟨"First", wrap line⟩, ⟨"Item", line⟩, ⟨"Cost", .int32⟩]]
      ⟨[(lineModel, line)]⟩ := rfl
  have hinstances : config.InstancesAgree 3 {} orderModel order ["First", "Item", "Price"] := by
    intro front name ms ds hfront hreads hshares m d hm hd
    have hfirst : config.Reads 3 {} orderModel order ["First"] [⟨"First", wrap lineModel⟩]
        [⟨"First", wrap line⟩] := ⟨rfl, {}, rfl⟩
    have hitem : config.Reads 3 {} orderModel order ["First", "Item"]
        [⟨"First", wrap lineModel⟩, ⟨"Item", lineModel⟩] [⟨"First", wrap line⟩, ⟨"Item", line⟩] :=
      ⟨rfl, ⟨[(lineModel, line)]⟩, rfl⟩
    match front, hfront with
    | [], _ =>
        obtain ⟨rfl, rfl⟩ := hreads.unique .nil
        cases hshares
    | [_], hfront =>
        obtain ⟨rfl, rfl⟩ : _ = "First" ∧ name = "Item" := by simpa using hfront
        obtain ⟨rfl, rfl⟩ := hreads.unique hfirst
        cases hm
        cases hd
        exact .inr (by decide)
    | [_, _], hfront =>
        obtain ⟨rfl, rfl, -⟩ : _ = "First" ∧ _ = "Item" ∧ name = "Price" := by simpa using hfront
        obtain ⟨rfl, rfl⟩ := hreads.unique hitem
        cases hshares
    | _ :: _ :: _ :: _, hfront =>
        exact absurd hfront.length_le (by simp)
  exact ⟨hinstances, dataPath_literals_agree hrun rfl (.inr (by decide)) hinstances
    List.prefix_rfl⟩

open Wrapped in
/-- What is wrapped is a text on one side and a number on the other. -/
theorem dataPath_literals_agree_fails :
    ¬ ∀ (c : Configuration) (budget : Nat) (model data : Ty) (path front : List String)
      (steps : List DataStep) (t t' : TypeTable),
      Returns (c.dataPath model data path budget) t steps t' → steps.any (·.isCustom) = false →
        c.LiteralsAgree model data → front <+: path →
          ∃ ms ds rest, c.Reads budget t model data front ms ds ∧
            steps = appendMembers [] (ds ++ rest) ∧
            c.LiteralsAgree (chainEnd model ms) (chainEnd data ds) := by
  intro h
  have hrun : Returns (config.dataPath orderModel order ["Total", "Item"] 2) {}
      [.members [⟨"Total", wrap .int32⟩, ⟨"Item", .int32⟩]] ⟨[(.string, .int32)]⟩ := rfl
  have hreads : config.Reads 2 {} orderModel order ["Total", "Item"]
      [⟨"Total", wrap .string⟩, ⟨"Item", .string⟩] [⟨"Total", wrap .int32⟩, ⟨"Item", .int32⟩] :=
    ⟨rfl, _, hrun⟩
  obtain ⟨ms, ds, rest, hfront, -, hagree⟩ :=
    h _ _ _ _ _ _ _ _ _ hrun rfl (.inr (by decide)) List.prefix_rfl
  obtain ⟨rfl, rfl⟩ := hfront.unique hreads
  rcases hagree with hsame | hliterals
  · cases hsame
  · exact hliterals ⟨rfl, rfl⟩

end Configuration

end Recast
