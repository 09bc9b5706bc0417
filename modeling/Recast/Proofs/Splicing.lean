import Recast.Proofs.RuntimeShape
import Recast.Proofs.Tracking

/-! # Splicing a custom lambda

A custom lambda is spliced around an expression by putting the expression in the place
of its parameter.  The expression is then evaluated wherever the parameter stood, any
number of times and within the frames of the lambdas around it, where applying the
lambda evaluates it once.  The two come to the same if the expression has its value in
all those frames.

- `Splice` — an expression in the place of a parameter, and its value.
- `Splice.Grafted`, `Splice.Pair` — values and environments of the lambda over the value
  next to those of the spliced lambda.
- `Splice.eval_tracks` — the two evaluations side by side.
-/

namespace Recast

open EvalM

/-! ## §1  The lambda next to the spliced one -/

namespace Expr

/-- The parameters that the lambdas in the expression bind. -/
def bound (e : Expr) : List Nat := e.nodes.flatMap binds

theorem free_or_bound (e : Expr) {p : Parameter} :
    .param p ∈ e.nodes → Free p e ∨ p.id ∈ e.bound := by
  induction e using induction_children with
  | step e ih =>
      intro hp
      rw [nodes_eq e] at hp
      rcases List.mem_cons.mp hp with rfl | hp
      · exact .inl .reference
      · obtain ⟨c, hc, hp⟩ := List.mem_flatMap.mp hp
        have hbound : c.bound ⊆ e.bound := fun id hid => by
          obtain ⟨n, hn, hid⟩ := List.mem_flatMap.mp hid
          exact List.mem_flatMap.mpr ⟨n, nodes_subset_of_child hc hn, hid⟩
        rcases ih c hc hp with hfree | hid
        · by_cases hlambda : ∃ ps body t, e = .lambda ps body t
          · obtain ⟨ps, body, t, rfl⟩ := hlambda
            obtain rfl := List.mem_singleton.mp hc
            by_cases hps : ∃ q ∈ ps, q.id = p.id
            · obtain ⟨q, hq, hid⟩ := hps
              refine .inr (List.mem_flatMap.mpr ⟨_, mem_nodes_self _, ?_⟩)
              exact hid ▸ List.mem_map_of_mem hq
            · exact .inl (.lambda hfree fun q hq hid => hps ⟨q, hq, hid⟩)
          · exact .inl (.child (fun ps body t he => hlambda ⟨ps, body, t, he⟩) hc hfree)
        · exact .inr (hbound hid)

/-- What is asked of the expression so that another can be put in the place of `s`: it refers to `s`
and `bound`, its constants are data, and its lambdas bind `bound` and not `s`. -/
structure Hosts (s : Parameter) (bound : List Nat) (e : Expr) : Prop where
  refers : e.RefersAs s.id s.ty
  within : ∀ p, .param p ∈ e.nodes → p.id ≠ s.id → p.id ∈ bound
  data : ∀ v t, .const v t ∈ e.nodes → v.isData = true
  binds : ∀ n ∈ e.nodes, ∀ id ∈ n.binds, id ≠ s.id ∧ id ∈ bound

variable {s : Parameter} {bound : List Nat} {e c x : Expr}

theorem Hosts.of_nodes (h : e.Hosts s bound) (hc : c.nodes ⊆ e.nodes) : c.Hosts s bound where
  refers p hp := h.refers p (hc hp)
  within p hp := h.within p (hc hp)
  data v t hv := h.data v t (hc hv)
  binds n hn := h.binds n (hc hn)

theorem Hosts.child (h : e.Hosts s bound) (hc : c ∈ e.children) : c.Hosts s bound :=
  h.of_nodes (nodes_subset_of_child hc)

theorem substitute_plain {id : Nat} (he : e.Plain) :
    substitute id x e = e.mapChildren (substitute id x) := by
  cases e using shapes with
  | param | lambda => exact he.elim
  | _ => simp [substitute, mapChildren, substituteAll_eq, substituteInits_eq]

theorem lambdaParts?_substitute {id : Nat} (hx : x.lambdaParts? = none) : ∀ e : Expr,
    (substitute id x e).lambdaParts? =
      e.lambdaParts?.map fun (ps, body, ty) => (ps, substitute id x body, ty) := by
  intro e
  induction e using lambdaParts?.induct with
  | case1 ps body ty => rfl
  | case2 e ty ih => exact ih
  | case3 e hlambda hquote =>
      cases e using shapes with
      | lambda ps body t => exact absurd rfl (hlambda ps body t)
      | param p =>
          rw [substitute]
          split
          · exact hx
          · rfl
      | unary op e t =>
          cases op with
          | quote => exact absurd rfl (hquote e t)
          | _ => rfl
      | _ => rfl

theorem Hosts.body : ∀ {e : Expr} {ps : List Parameter} {body : Expr} {ty : Ty},
    e.Hosts s bound → e.lambdaParts? = some (ps, body, ty) →
      body.Hosts s bound ∧ ∀ p ∈ ps, p.id ≠ s.id ∧ p.id ∈ bound
  | .lambda ps body t, _, _, _, he, h => by
      cases h
      refine ⟨he.child (by simp [children]), fun p hp => ?_⟩
      exact he.binds _ (mem_nodes_self _) p.id (List.mem_map_of_mem hp)
  | .unary .quote e _, _, _, _, he, h =>
      Hosts.body (e := e) (he.child (by simp [children])) h

end Expr

/-- An expression that is put in the place of a parameter. -/
structure Splice where
  param : Parameter
  argument : Expr
  /-- What the argument evaluates to. -/
  value : Value
  /-- The parameters that are bound by lambdas around the argument. -/
  bound : List Nat
  /-- Where the spliced expression is evaluated. -/
  env : Env

namespace Splice

variable (g : Splice)

def into (e : Expr) : Expr := .substitute g.param.id g.argument e

def graft (v : Value) : Value := v.graft g.param.id g.argument

def HostsAll (v : Value) : Prop := ∀ e ∈ v.lambdas, e.Hosts g.param g.bound

/-- A value and what it is over the spliced expression. -/
def Grafted (v w : Value) : Prop := w = g.graft v ∧ g.HostsAll v

/-- The environments are told apart by parameters that the lambdas around the argument bind. -/
def Around (env' : Env) : Prop := ∀ k ∉ g.bound, env'.get? k = g.env.get? k

/-- The environment of the lambda over the value next to that of the spliced expression: what is
bound in the first is grafted in the second, and what is not, in neither or it is excused. -/
structure Pair (L : EvalError → Prop) (env env' : Env) : Prop where
  value : env.get? g.param.id = some g.value
  others : ∀ k v, k ≠ g.param.id → env.get? k = some v →
    env'.get? k = some (g.graft v) ∧ g.HostsAll v
  unbound : ∀ k ∈ g.bound, env.get? k = none →
    (∀ name, L (.unboundParameter name)) ∨ env'.get? k = none
  around : g.Around env'

/-- The value is data and stands for the argument where types are looked at. -/
structure Fits (r : Registry) : Prop where
  data : g.value.isData = true
  typed : g.argument.ty = g.param.ty ∨
    r.extends? g.argument.ty g.param.ty = true ∧ r.underlying? g.param.ty = none ∧
      (g.value = .null ∨ ∃ t fields, g.value = .record t fields)
  plain : g.argument.lambdaParts? = none

variable {g} {L R : EvalError → Prop} {env env' : Env} {v w : Value}

theorem hostsAll_of_isData (h : v.isData = true) : g.HostsAll v := by
  intro e he
  rw [Value.lambdas_of_isData h] at he
  cases he

theorem grafted_of_isData (h : v.isData = true) : g.Grafted v v :=
  ⟨(Value.graft_of_isData h).symm, hostsAll_of_isData h⟩

theorem hostsAll_list {vs : List Value} : g.HostsAll (.list vs) ↔ ∀ v ∈ vs, g.HostsAll v := by
  simp only [HostsAll, Value.lambdas, Value.lambdasOfItems_eq, List.mem_flatMap]
  constructor
  · exact fun h v hv e he => h e ⟨v, hv, he⟩
  · rintro h e ⟨v, hv, he⟩
    exact h v hv e he

theorem hostsAll_record {t : Ty} {fields : List (String × Value)} :
    g.HostsAll (.record t fields) ↔ ∀ f ∈ fields, g.HostsAll f.2 := by
  simp only [HostsAll, Value.lambdas, Value.lambdasOfFields_eq, List.mem_flatMap]
  constructor
  · exact fun h f hf e he => h e ⟨f, hf, he⟩
  · rintro h e ⟨f, hf, he⟩
    exact h f hf e he

/-! Grafted lists -/

/-- Values and what they are over the spliced expression, one by one. -/
def GraftedAll (g : Splice) (vs ws : List Value) : Prop :=
  ws = vs.map g.graft ∧ ∀ v ∈ vs, g.HostsAll v

theorem Grafted.cons {vs ws : List Value} (h : g.Grafted v w) (hs : GraftedAll g vs ws) :
    GraftedAll g (v :: vs) (w :: ws) := by
  obtain ⟨rfl, hv⟩ := h
  obtain ⟨rfl, hvs⟩ := hs
  exact ⟨rfl, List.forall_mem_cons.mpr ⟨hv, hvs⟩⟩

theorem GraftedAll.list {vs ws : List Value} (h : GraftedAll g vs ws) :
    g.Grafted (.list vs) (.list ws) := by
  obtain ⟨rfl, hvs⟩ := h
  exact ⟨Value.graft_list.symm, hostsAll_list.mpr hvs⟩

/-! What values are made of is hosted where they are. -/

theorem HostsAll.castValue {r : Registry} {s t : Ty} (hv : g.HostsAll v)
    (h : r.castValue v s t = .ok w) : g.HostsAll w := by
  rcases Registry.castValue_cases h with hw | rfl
  · exact hostsAll_of_isData hw
  · exact hv

theorem HostsAll.valueMember {isNullable : Bool} {name : String} (hv : g.HostsAll v)
    (h : valueMember isNullable v name = .ok w) : g.HostsAll w := by
  rcases valueMember_cases h with hw | rfl | ⟨t, fields, rfl, hmem⟩
  · exact hostsAll_of_isData hw
  · exact hv
  · exact hostsAll_record.mp hv _ hmem

theorem HostsAll.operatorValue {integral : Bool} {op : BinaryOp} {b : Value} (hv : g.HostsAll v)
    (h : operatorValue integral op v b = .ok w) : g.HostsAll w := by
  rcases operatorValue_cases h with hw | ⟨items, rfl, hmem⟩
  · exact hostsAll_of_isData hw
  · exact hostsAll_list.mp hv w hmem

/-! Frames -/

/-- A frame of parameters that the lambdas around the argument bind, over grafted values. -/
theorem Pair.push (h : g.Pair L env env') {ps : List Parameter} {vs : List Value}
    (hps : ∀ p ∈ ps, p.id ≠ g.param.id ∧ p.id ∈ g.bound) (hvs : ∀ v ∈ vs, g.HostsAll v) :
    g.Pair L (env.push ((ps.map (·.id)).zip vs))
      (env'.push ((ps.map (·.id)).zip (vs.map g.graft))) := by
  have hframe : (ps.map (·.id)).zip (vs.map g.graft) =
      ((ps.map (·.id)).zip vs).map fun b => (b.1, g.graft b.2) := by
    rw [List.zip_map_right]
    rfl
  rw [hframe]
  generalize hzip : (ps.map (·.id)).zip vs = frame
  -- the two frames bind the same parameters, so they are searched alike
  have hids : ∀ b ∈ frame, (b.1 ≠ g.param.id ∧ b.1 ∈ g.bound) ∧ g.HostsAll b.2 := by
    rintro ⟨k, v⟩ hb
    obtain ⟨hk, hv⟩ := List.of_mem_zip (hzip ▸ hb)
    obtain ⟨p, hp, rfl⟩ := List.mem_map.mp hk
    exact ⟨hps p hp, hvs v hv⟩
  have hfind : ∀ k, ((frame.map fun b => (b.1, g.graft b.2)).reverse.find? (·.1 == k)).map (·.2) =
      ((frame.reverse.find? (·.1 == k)).map (·.2)).map g.graft := by
    intro k
    rw [← List.map_reverse, List.find?_map, Option.map_map, Option.map_map]
    rfl
  have hmem : ∀ k b, frame.reverse.find? (·.1 == k) = some b → b ∈ frame ∧ b.1 = k := fun k b hb =>
    ⟨List.mem_reverse.mp (List.mem_of_find?_eq_some hb), by simpa using List.find?_some hb⟩
  refine ⟨?_, fun k v hk hv => ?_, fun k hbound hk => ?_, fun k hk => ?_⟩
  · rw [Scope.get?_push]
    cases hb : frame.reverse.find? (·.1 == g.param.id) with
    | none => exact h.value
    | some b =>
        obtain ⟨hframe, hid⟩ := hmem _ b hb
        exact absurd hid (hids b hframe).1.1
  · rw [Scope.get?_push, hfind]
    rw [Scope.get?_push] at hv
    cases hb : frame.reverse.find? (·.1 == k) with
    | none =>
        rw [hb] at hv
        exact h.others k v hk hv
    | some b =>
        rw [hb] at hv
        obtain rfl : b.2 = v := Option.some.inj hv
        exact ⟨rfl, (hids b (hmem k b hb).1).2⟩
  · rw [Scope.get?_push] at hk
    rw [Scope.get?_push, hfind]
    cases hb : frame.reverse.find? (·.1 == k) with
    | none =>
        rw [hb] at hk
        exact h.unbound k hbound hk
    | some b =>
        rw [hb] at hk
        cases hk
  · rw [Scope.get?_push, hfind]
    cases hb : frame.reverse.find? (·.1 == k) with
    | none => exact h.around k hk
    | some b =>
        obtain ⟨hframe, rfl⟩ := hmem k b hb
        exact absurd (hids b hframe).1.2 hk

/-! ## §2  Applying lambdas -/

section Apply

variable {self self' : Expr → EvalM Value} {f : Value} {items : List Value}

/-- Applied to an item, the lambda and its graft end alike. -/
def Applies (g : Splice) (L R : EvalError → Prop) (env env' : Env)
    (self self' : Expr → EvalM Value) (f : Value) : Prop :=
  ∀ item, g.HostsAll item →
    Tracks L R env env' g.Grafted (applyValue self f [item])
      (applyValue self' (g.graft f) [g.graft item])

section Loops

variable (hf : g.Applies L R env env' self self' f)
include hf

theorem holds_tracks {item : Value} (hitem : g.HostsAll item) :
    Tracks L R env env' (fun b b' => b = b') (holds self f item)
      (holds self' (g.graft f) (g.graft item)) := by
  refine tracks_bind (hf item hitem) ?_
  rintro v _ ⟨rfl, -⟩
  have hother : Tracks L R env env' (fun b b' => b = b')
      (throw (.typeMismatch "Boolean" v.text) : EvalM Bool)
      (throw (.typeMismatch "Boolean" (g.graft v).text)) := by
    rw [graft, Value.text_graft]
    exact tracks_throw
  cases v with
  | bool b => exact tracks_pure rfl
  | null => exact tracks_pure rfl
  | _ => exact hother

theorem anyHolds_tracks (hitems : ∀ v ∈ items, g.HostsAll v) :
    Tracks L R env env' (fun b b' => b = b') (anyHolds self f items)
      (anyHolds self' (g.graft f) (items.map g.graft)) := by
  induction items with
  | nil => exact tracks_pure rfl
  | cons item items ih =>
      obtain ⟨hitem, hitems⟩ := List.forall_mem_cons.mp hitems
      refine tracks_bind (holds_tracks hf hitem) ?_
      rintro b _ rfl
      cases b with
      | true => exact tracks_pure rfl
      | false => exact ih hitems

theorem allHold_tracks (hitems : ∀ v ∈ items, g.HostsAll v) :
    Tracks L R env env' (fun b b' => b = b') (allHold self f items)
      (allHold self' (g.graft f) (items.map g.graft)) := by
  induction items with
  | nil => exact tracks_pure rfl
  | cons item items ih =>
      obtain ⟨hitem, hitems⟩ := List.forall_mem_cons.mp hitems
      refine tracks_bind (holds_tracks hf hitem) ?_
      rintro b _ rfl
      cases b with
      | true => exact ih hitems
      | false => exact tracks_pure rfl

theorem keepHolding_tracks (hitems : ∀ v ∈ items, g.HostsAll v) :
    Tracks L R env env' g.GraftedAll (keepHolding self f items)
      (keepHolding self' (g.graft f) (items.map g.graft)) := by
  induction items with
  | nil => exact tracks_pure ⟨rfl, by simp⟩
  | cons item items ih =>
      obtain ⟨hitem, hitems⟩ := List.forall_mem_cons.mp hitems
      refine tracks_bind (holds_tracks hf hitem) ?_
      rintro b _ rfl
      refine tracks_bind (ih hitems) fun rest rest' hrest => tracks_pure ?_
      cases b with
      | true => exact Grafted.cons ⟨rfl, hitem⟩ hrest
      | false => exact hrest

theorem selected_tracks (hitems : ∀ v ∈ items, g.HostsAll v) :
    Tracks L R env env' g.GraftedAll (selected self f items)
      (selected self' (g.graft f) (items.map g.graft)) := by
  induction items with
  | nil => exact tracks_pure ⟨rfl, by simp⟩
  | cons item items ih =>
      obtain ⟨hitem, hitems⟩ := List.forall_mem_cons.mp hitems
      refine tracks_bind (hf item hitem) fun v w hv => ?_
      exact tracks_bind (ih hitems) fun vs ws hvs => tracks_pure (hv.cons hvs)

theorem sumFrom_tracks (hitems : ∀ v ∈ items, g.HostsAll v) {total : Int} :
    Tracks L R env env' (fun n n' => n = n') (sumFrom self f total items)
      (sumFrom self' (g.graft f) total (items.map g.graft)) := by
  induction items generalizing total with
  | nil => exact tracks_pure rfl
  | cons item items ih =>
      obtain ⟨hitem, hitems⟩ := List.forall_mem_cons.mp hitems
      refine tracks_bind (hf item hitem) ?_
      rintro v _ ⟨rfl, -⟩
      dsimp only
      rw [graft, Value.asInt64?_graft]
      split
      · exact ih hitems
      · exact tracks_throw

/-- The best value so far and its graft. -/
theorem extremeFrom_tracks (hitems : ∀ v ∈ items, g.HostsAll v) {wanted : Ordering}
    {best : Option Value} (hbest : ∀ v ∈ best, g.HostsAll v) :
    Tracks L R env env' (fun b b' => b' = b.map g.graft ∧ ∀ v ∈ b, g.HostsAll v)
      (extremeFrom self f wanted best items)
      (extremeFrom self' (g.graft f) wanted (best.map g.graft) (items.map g.graft)) := by
  induction items generalizing best with
  | nil => exact tracks_pure ⟨rfl, hbest⟩
  | cons item items ih =>
      obtain ⟨hitem, hitems⟩ := List.forall_mem_cons.mp hitems
      refine tracks_bind (hf item hitem) ?_
      rintro v _ ⟨rfl, hv⟩
      cases best with
      | none => exact ih hitems fun w hw => by cases hw; exact hv
      | some b =>
          have horder : (g.graft v).order? (g.graft b) = v.order? b := Value.order?_graft v b
          simp only [Option.map_some, horder]
          split
          · exact ih hitems fun w hw => by cases hw; exact hv
          · exact ih hitems fun w hw => by cases hw; exact hbest b rfl

end Loops

theorem sortAscending_graft {keys items : List Value} :
    sortAscending ((keys.map g.graft).zip (items.map g.graft)) =
      (sortAscending (keys.zip items)).map g.graft := by
  have hbelow : ∀ a b : Value × Value, keyBelow (Prod.map g.graft g.graft a)
      (Prod.map g.graft g.graft b) = keyBelow a b := fun a b => by
    simp only [keyBelow, Prod.map_fst, graft, Value.order?_graft]
  rw [sortAscending, sortAscending, List.zip_map, sortBy_map hbelow, List.map_map, List.map_map]
  rfl

theorem sortDescending_graft {keys items : List Value} :
    sortDescending ((keys.map g.graft).zip (items.map g.graft)) =
      (sortDescending (keys.zip items)).map g.graft := by
  have hbelow : ∀ a b : Value × Value, keyBelow (Prod.map g.graft g.graft b)
      (Prod.map g.graft g.graft a) = keyBelow b a := fun a b => by
    simp only [keyBelow, Prod.map_fst, graft, Value.order?_graft]
  rw [sortDescending, sortDescending, List.zip_map, sortBy_map hbelow, List.map_map, List.map_map]
  rfl

variable {arg? : Option Value}

theorem keepIf_tracks (harg : ∀ f ∈ arg?, g.Applies L R env env' self self' f)
    (hitems : ∀ v ∈ items, g.HostsAll v) :
    Tracks L R env env' g.GraftedAll (keepIf self arg? items)
      (keepIf self' (arg?.map g.graft) (items.map g.graft)) := by
  cases arg? with
  | none => exact tracks_pure ⟨rfl, hitems⟩
  | some f => exact keepHolding_tracks (harg f rfl) hitems

theorem withArgument_tracks {P : Value → Value → Prop} {use use' : Value → EvalM Value}
    (harg : ∀ f ∈ arg?, g.Applies L R env env' self self' f)
    (huse : ∀ f, g.Applies L R env env' self self' f →
      Tracks L R env env' P (use f) (use' (g.graft f))) :
    Tracks L R env env' P (withArgument arg? use) (withArgument (arg?.map g.graft) use') := by
  cases arg? with
  | none => exact tracks_throw
  | some f => exact huse f (harg f rfl)

/-- `Contains` compares the items with the argument itself. -/
theorem sequenceOperator_tracks {name : String}
    (harg : ∀ f ∈ arg?, g.Applies L R env env' self self' f)
    (hcontains : name = "Contains" → ∀ v ∈ arg?, ∀ item ∈ items, item.meets v = false)
    (hitems : ∀ v ∈ items, g.HostsAll v) :
    Tracks L R env env' g.Grafted (sequenceOperator self name items arg?)
      (sequenceOperator self' name (items.map g.graft) (arg?.map g.graft)) := by
  have hkept := keepIf_tracks harg hitems
  have hwith : ∀ {use use' : Value → EvalM Value},
      (∀ f, g.Applies L R env env' self self' f →
        Tracks L R env env' g.Grafted (use f) (use' (g.graft f))) →
      Tracks L R env env' g.Grafted (withArgument arg? use)
        (withArgument (arg?.map g.graft) use') := withArgument_tracks harg
  have hcount : (arg?.map g.graft).bind Value.asInt64? = arg?.bind Value.asInt64? := by
    cases arg? with
    | none => rfl
    | some v => exact Value.asInt64?_graft v
  unfold sequenceOperator
  dsimp only
  rw [hcount]
  split
  case h_12 | h_13 =>
    -- Max and Min
    refine hwith fun f hf => ?_
    refine tracks_bind (extremeFrom_tracks hf hitems (by simp)) ?_
    rintro best _ ⟨rfl, hbest⟩
    cases best with
    | none => exact tracks_throw
    | some v => exact tracks_pure ⟨rfl, hbest v rfl⟩
  · -- Any
    cases arg? with
    | none =>
        refine tracks_pure ?_
        rw [List.isEmpty_map]
        exact grafted_of_isData rfl
    | some f =>
        refine tracks_map (anyHolds_tracks (harg f rfl) hitems) ?_
        rintro b _ rfl
        exact grafted_of_isData rfl
  · -- All
    refine hwith fun f hf => tracks_map (allHold_tracks hf hitems) ?_
    rintro b _ rfl
    exact grafted_of_isData rfl
  · -- Count
    refine tracks_map hkept ?_
    rintro kept _ ⟨rfl, -⟩
    rw [List.length_map]
    exact grafted_of_isData rfl
  · -- Where
    exact tracks_map hkept fun kept kept' h => h.list
  · -- Select
    exact hwith fun f hf => tracks_map (selected_tracks hf hitems) fun vs ws h => h.list
  · -- First
    refine tracks_bind hkept ?_
    rintro kept _ ⟨rfl, hkept⟩
    cases kept with
    | nil => exact tracks_throw
    | cons v vs => exact tracks_pure ⟨rfl, hkept v List.mem_cons_self⟩
  · -- FirstOrDefault
    refine tracks_map hkept ?_
    rintro kept _ ⟨rfl, hkept⟩
    cases kept with
    | nil => exact grafted_of_isData rfl
    | cons v vs => exact ⟨rfl, hkept v List.mem_cons_self⟩
  · -- Contains
    refine tracks_pure ?_
    have hsame : (arg?.map g.graft).any (fun v => (items.map g.graft).any (·.sameValue v)) =
        arg?.any fun v => items.any (·.sameValue v) := by
      cases arg? with
      | none => rfl
      | some v =>
          simp only [Option.map_some, Option.any_some, List.any_map]
          rw [Bool.eq_iff_iff, List.any_eq_true, List.any_eq_true]
          refine exists_congr fun item => and_congr_right fun hitem => ?_
          rw [Function.comp, graft, graft, Value.sameValue_graft (hcontains rfl v rfl item hitem)]
    rw [hsame]
    exact grafted_of_isData rfl
  · -- OrderBy
    refine hwith fun f hf => tracks_map (selected_tracks hf hitems) ?_
    rintro keys _ ⟨rfl, -⟩
    rw [sortAscending_graft]
    exact GraftedAll.list ⟨rfl, fun v hv => hitems v (sortAscending_subset hv)⟩
  · -- OrderByDescending
    refine hwith fun f hf => tracks_map (selected_tracks hf hitems) ?_
    rintro keys _ ⟨rfl, -⟩
    rw [sortDescending_graft]
    exact GraftedAll.list ⟨rfl, fun v hv => hitems v (sortDescending_subset hv)⟩
  · -- Sum
    refine hwith fun f hf => tracks_map (sumFrom_tracks hf hitems) ?_
    rintro n _ rfl
    exact grafted_of_isData rfl
  · -- Take
    rw [← List.map_take]
    exact tracks_pure (GraftedAll.list ⟨rfl, fun v hv => hitems v (List.mem_of_mem_take hv)⟩)
  · -- Skip
    rw [← List.map_drop]
    exact tracks_pure (GraftedAll.list ⟨rfl, fun v hv => hitems v (List.mem_of_mem_drop hv)⟩)
  · exact tracks_throw

/-- The value of an expression and of the spliced one; the parameter itself has the value of the
argument. -/
def Valued (g : Splice) (e : Expr) (v w : Value) : Prop :=
  g.Grafted v w ∧ ∀ p, e = .param p → p.id = g.param.id → v = g.value

variable {r : Registry} (hfits : g.Fits r)
variable (hself : ∀ {e : Expr} {env env' : Env}, e.Hosts g.param g.bound → g.Pair L env env' →
  Tracks L R env env' (g.Valued e) (self e) (self' (g.into e)))

include hfits hself in
theorem applyLambda_tracks (henv : g.Pair L env env') {e : Expr} {args : List Value}
    (he : e.Hosts g.param g.bound) (hargs : ∀ v ∈ args, g.HostsAll v) :
    Tracks L R env env' g.Grafted (applyLambda self e args)
      (applyLambda self' (g.into e) (args.map g.graft)) := by
  unfold applyLambda
  rw [into, Expr.lambdaParts?_substitute hfits.plain]
  cases hparts : e.lambdaParts? with
  | none => exact tracks_throw
  | some parts =>
      obtain ⟨ps, body, ty⟩ := parts
      obtain ⟨hbody, hps⟩ := he.body hparts
      exact tracks_inFrame (tracks_mono (hself hbody (henv.push hps hargs)) fun _ _ h => h.1)

include hfits hself in
theorem applyValue_tracks (henv : g.Pair L env env') (hf : g.HostsAll f) {args : List Value}
    (hargs : ∀ v ∈ args, g.HostsAll v) :
    Tracks L R env env' g.Grafted (applyValue self f args)
      (applyValue self' (g.graft f) (args.map g.graft)) := by
  have hother : Tracks L R env env' g.Grafted (throw (.typeMismatch "lambda" f.text))
      (throw (.typeMismatch "lambda" (g.graft f).text)) := by
    rw [graft, Value.text_graft]
    exact tracks_throw
  cases f with
  | lambda e =>
      exact applyLambda_tracks hfits hself henv (hf e (List.mem_singleton_self e)) hargs
  | _ => exact hother

theorem methodValue_null {m : Method} {args : List Value}
    (hm : (m.declaring == "Enumerable" || m.declaring == "Queryable") = false) :
    methodValue self m (some .null) args = throw (.nullReference m.qualifiedName) := by
  simp only [methodValue, hm, Bool.false_eq_true, if_false]

/-- A method of strings or of all values, applied to a value that is not null. -/
theorem methodValue_of_receiver {m : Method} {args : List Value}
    (hm : (m.declaring == "Enumerable" || m.declaring == "Queryable") = false)
    (hv : v.isNull = false) :
    methodValue self m (some v) args =
      if m.declaring = "String" then
        EvalM.ofExcept (match v with
          | .str s => textMethod m s args
          | v => objectMethod m v args)
      else if m.declaring = "Object" then EvalM.ofExcept (objectMethod m v args)
      else throw (.unsupportedMethod m.qualifiedName) := by
  simp only [methodValue, hm, Bool.false_eq_true, if_false]
  cases v with
  | null => cases hv
  | _ => dsimp only; split <;> simp_all

include hfits hself in
theorem methodValue_tracks (henv : g.Pair L env env') {m : Method} {receiver? : Option Value}
    {vs : List Value} (hreceiver : ∀ v ∈ receiver?, g.HostsAll v) (hvs : ∀ v ∈ vs, g.HostsAll v)
    (hmeets : m.meets receiver? vs = false) :
    Tracks L R env env' g.Grafted (methodValue self m receiver? vs)
      (methodValue self' m (receiver?.map g.graft) (vs.map g.graft)) := by
  cases hsequence : m.declaring == "Enumerable" || m.declaring == "Queryable" with
  | true =>
      -- sequence operators take the sequence as their first argument and look at no receiver
      simp only [methodValue, hsequence, if_true]
      cases vs with
      | nil => exact tracks_throw
      | cons v vs =>
          obtain ⟨hv, hrest⟩ := List.forall_mem_cons.mp hvs
          have hother : Tracks L R env env' g.Grafted (throw (.typeMismatch "sequence" v.text))
              (throw (.typeMismatch "sequence" (g.graft v).text)) := by
            rw [graft, Value.text_graft]
            exact tracks_throw
          cases v with
          | list items =>
              have hhead : (vs.map g.graft).head? = vs.head?.map g.graft := List.head?_map
              rw [List.map_cons, graft, Value.graft_list]
              simp only [hhead]
              refine sequenceOperator_tracks (fun f hf item hitem => ?_) (fun hname w hw => ?_)
                (hostsAll_list.mp hv)
              · exact applyValue_tracks hfits hself henv (hrest f (List.mem_of_mem_head? hf))
                  (by simpa using hitem)
              · obtain ⟨ws, rfl⟩ := List.head?_eq_some_iff.mp hw
                simpa [Method.meets, hsequence, hname, itemsMeet] using hmeets
          | null => exact tracks_throw
          | _ => exact hother
  | false =>
      cases receiver? with
      | none =>
          simp only [methodValue, hsequence, Bool.false_eq_true, if_false, Option.map_none]
          exact tracks_throw
      | some v =>
          have hcompared : ∀ w ∈ vs.head?, m.name = "Equals" → v.meets w = false := by
            intro w hw hname
            obtain ⟨ws, rfl⟩ := List.head?_eq_some_iff.mp hw
            simpa [Method.meets, hsequence, hname, receiverMeets] using hmeets
          have hobject : Tracks L R env env' g.Grafted (EvalM.ofExcept (objectMethod m v vs))
              (EvalM.ofExcept (objectMethod m (g.graft v) (vs.map g.graft))) := by
            show Tracks L R env env' g.Grafted _ (EvalM.ofExcept
              (objectMethod m (v.graft g.param.id g.argument)
                (vs.map (Value.graft g.param.id g.argument))))
            rw [objectMethod_graft hcompared]
            exact tracks_ofExcept fun u hu => ⟨rfl, hostsAll_of_isData (objectMethod_isData hu)⟩
          have htext : ∀ s, Tracks L R env env' g.Grafted (EvalM.ofExcept (textMethod m s vs))
              (EvalM.ofExcept (textMethod m s (vs.map g.graft))) := by
            intro s
            show Tracks L R env env' g.Grafted _ (EvalM.ofExcept
              (textMethod m s (vs.map (Value.graft g.param.id g.argument))))
            rw [textMethod_graft]
            exact tracks_ofExcept fun u hu => ⟨rfl, hostsAll_of_isData (textMethod_isData hu)⟩
          cases hnull : v.isNull with
          | true =>
              obtain rfl : v = .null := by cases v <;> first | rfl | cases hnull
              have hgraft : g.graft .null = .null := rfl
              rw [methodValue_null hsequence, Option.map_some, hgraft, methodValue_null hsequence]
              exact tracks_throw
          | false =>
              have hnull' : (g.graft v).isNull = false := (Value.isNull_graft v).trans hnull
              rw [methodValue_of_receiver hsequence hnull, Option.map_some,
                methodValue_of_receiver hsequence hnull']
              split
              · cases v with
                | str s => exact htext s
                | _ => exact hobject
              · split
                · exact hobject
                · exact tracks_throw

/-! ## §3  Nodes -/

/-! What is read off the static type of an operand is the same for both. -/

theorem castValue_static {s s' t : Ty} (hv : v = .null ∨ ∃ t fields, v = .record t fields) :
    r.castValue v s t = r.castValue v s' t := by
  rcases hv with rfl | ⟨u, fields, rfl⟩
  · rfl
  · have hliteral : ∀ l, r.toLiteral? (r.stripNullable s) l (.record u fields) =
        r.toLiteral? (r.stripNullable s') l (.record u fields) := by
      intro l
      cases l <;> rfl
    simp only [Registry.castValue, hliteral]

theorem isInstance_static {s s' t : Ty} (hv : v = .null ∨ ∃ t fields, v = .record t fields) :
    r.isInstance v s t = r.isInstance v s' t := by
  rcases hv with rfl | ⟨u, fields, rfl⟩ <;> rfl

theorem ty_into {e : Expr} (he : ∀ p, e = .param p → p.id ≠ g.param.id) : (g.into e).ty = e.ty := by
  cases e using Expr.shapes with
  | param p => rw [into, Expr.substitute, if_neg (he p rfl)]
  | _ => rfl

include hfits in
theorem Valued.reads {e : Expr} (he : e.Hosts g.param g.bound) (h : g.Valued e v w) :
    (∀ t, r.castValue w (g.into e).ty t = (r.castValue v e.ty t).map g.graft) ∧
    (∀ t, r.isInstance w (g.into e).ty t = r.isInstance v e.ty t) ∧
    (r.underlying? (g.into e).ty).isSome = (r.underlying? e.ty).isSome := by
  obtain ⟨⟨rfl, hv⟩, hvalue⟩ := h
  -- only the argument may have another static type than what it stands for
  by_cases hparam : ∃ p, e = .param p ∧ p.id = g.param.id
  · obtain ⟨p, rfl, hid⟩ := hparam
    obtain rfl := hvalue p rfl hid
    have hinto : g.into (.param p) = g.argument := by rw [into, Expr.substitute, if_pos hid]
    have hty : (Expr.param p).ty = g.param.ty := he.refers p (Expr.mem_nodes_self _) hid
    rw [hinto, hty]
    rcases hfits.typed with hsame | ⟨hextends, hunderlying, hscalar⟩
    · rw [hsame]
      exact ⟨fun t => Registry.castValue_graft, fun t => Registry.isInstance_graft, rfl⟩
    · have hargument : r.isRecord g.argument.ty = true := (Bool.and_eq_true _ _ |>.mp hextends).1
      rw [Registry.underlying?_of_record hargument, hunderlying]
      refine ⟨fun t => ?_, fun t => ?_, rfl⟩
      · rw [← castValue_static (s := g.argument.ty) hscalar]
        exact Registry.castValue_graft
      · rw [← isInstance_static (s := g.argument.ty) hscalar]
        exact Registry.isInstance_graft
  · rw [ty_into fun p hp hid => hparam ⟨p, hp, hid⟩]
    exact ⟨fun t => Registry.castValue_graft, fun t => Registry.isInstance_graft, rfl⟩

theorem Grafted.valued {e : Expr} (he : ∀ p, e ≠ .param p) (h : g.Grafted v w) : g.Valued e v w :=
  ⟨h, fun p hp => absurd hp (he p)⟩

section Nodes

variable (henv : g.Pair L env env')

include hself henv in
theorem arguments_tracks : ∀ {args : List Expr}, (∀ e ∈ args, e.Hosts g.param g.bound) →
    Tracks L R env env' g.GraftedAll (args.mapM self) ((args.map g.into).mapM self')
  | [], _ => tracks_pure ⟨rfl, by simp⟩
  | arg :: args, hargs => by
      obtain ⟨harg, hargs⟩ := List.forall_mem_cons.mp hargs
      rw [List.map_cons, List.mapM_cons, List.mapM_cons]
      refine tracks_bind (hself harg henv) fun v w hv => ?_
      exact tracks_bind (arguments_tracks hargs) fun vs ws hvs => tracks_pure (hv.1.cons hvs)

include hself henv in
theorem initValues_tracks : ∀ {inits : List (String × Expr)} (done : List (String × Value)),
    (∀ i ∈ inits, i.2.Hosts g.param g.bound) → (∀ f ∈ done, g.HostsAll f.2) →
      Tracks L R env env'
        (fun fs gs => gs = fs.map (fun f => (f.1, g.graft f.2)) ∧ ∀ f ∈ fs, g.HostsAll f.2)
        (Registry.initValues self inits done)
        (Registry.initValues self' (inits.map fun i => (i.1, g.into i.2))
          (done.map fun f => (f.1, g.graft f.2)))
  | [], _, _, hdone => tracks_pure ⟨rfl, hdone⟩
  | (name, e) :: inits, done, hinits, hdone => by
      obtain ⟨he, hinits⟩ := List.forall_mem_cons.mp hinits
      refine tracks_bind (hself he henv) ?_
      rintro v _ ⟨⟨rfl, hv⟩, -⟩
      have hput : Value.putField (done.map fun f => (f.1, g.graft f.2)) name (g.graft v) =
          (Value.putField done name v).map fun f => (f.1, g.graft f.2) := Value.putField_graft
      rw [hput]
      refine initValues_tracks _ hinits fun f hf => ?_
      rcases Value.mem_putField hf with hf | rfl
      · exact hdone f hf
      · exact hv

include hfits hself henv in
theorem unaryValue_tracks {op : UnaryOp} {operand : Expr} {ty : Ty}
    (he : operand.Hosts g.param g.bound) :
    Tracks L R env env' g.Grafted (r.unaryValue self op operand ty)
      (r.unaryValue self' op (g.into operand) ty) := by
  refine tracks_bind (hself he henv) fun v w hvalued => ?_
  obtain ⟨hcast, hinstance, -⟩ := hvalued.reads hfits he
  obtain ⟨⟨rfl, hv⟩, -⟩ := hvalued
  cases op with
  | quote => exact tracks_pure ⟨rfl, hv⟩
  | convert | convertChecked =>
      dsimp only
      rw [hcast ty]
      exact tracks_ofExcept fun u hu => ⟨rfl, hv.castValue hu⟩
  | typeAs =>
      dsimp only
      rw [hinstance ty]
      split
      · exact tracks_pure ⟨rfl, hv⟩
      · exact tracks_pure (grafted_of_isData rfl)
  | not =>
      have hnot : negation (g.graft v) = (negation v).map g.graft :=
        negation_graft.trans (map_graft_of_isData fun u hu => negation_isData hu).symm
      dsimp only
      rw [hnot]
      exact tracks_ofExcept fun u hu => ⟨rfl, hostsAll_of_isData (negation_isData hu)⟩
  | negate =>
      have hnegate : negated (g.graft v) = (negated v).map g.graft :=
        negated_graft.trans (map_graft_of_isData fun u hu => negated_isData hu).symm
      dsimp only
      rw [hnegate]
      exact tracks_ofExcept fun u hu => ⟨rfl, hostsAll_of_isData (negated_isData hu)⟩
  | arrayLength =>
      have hlist : (g.graft v).asList? = v.asList?.map fun items => items.map g.graft :=
        Value.asList?_graft v
      have hbad : badOperand .arrayLength (g.graft v) = badOperand .arrayLength v := by
        rw [badOperand, badOperand, graft, Value.text_graft]
      simp only [hlist, hbad]
      cases v.asList? with
      | none => exact tracks_throw
      | some items =>
          simp only [Option.map_some, List.length_map]
          exact tracks_pure (grafted_of_isData rfl)

include hself henv in
theorem shortCircuit_tracks {op : BinaryOp} {absorbing : Bool} {left right : Expr}
    (hleft : left.Hosts g.param g.bound) (hright : right.Hosts g.param g.bound) :
    Tracks L R env env' g.Grafted (Registry.shortCircuit self op absorbing left right)
      (Registry.shortCircuit self' op absorbing (g.into left) (g.into right)) := by
  refine tracks_bind (hself hleft henv) ?_
  rintro v _ ⟨⟨rfl, hv⟩, -⟩
  have habsorbs : (g.graft v == .bool absorbing) = (v == .bool absorbing) := by
    cases v <;> rfl
  rw [habsorbs]
  split
  · exact tracks_pure ⟨rfl, hv⟩
  · refine tracks_bind (hself hright henv) ?_
    rintro w _ ⟨⟨rfl, -⟩, -⟩
    have hconnect : connective op (g.graft v) (g.graft w) = (connective op v w).map g.graft :=
      connective_graft.trans (map_graft_of_isData fun u hu => connective_isData hu).symm
    rw [hconnect]
    exact tracks_ofExcept fun u hu => ⟨rfl, hostsAll_of_isData (connective_isData hu)⟩

theorem operatorValue_tracks {integral : Bool} {op : BinaryOp} (hv : g.HostsAll v)
    (hmeets : op = .equal ∨ op = .notEqual → v.meets w = false) :
    Tracks L R env env' g.Grafted (EvalM.ofExcept (operatorValue integral op v w))
      (EvalM.ofExcept (operatorValue integral op (g.graft v) (g.graft w))) := by
  have hoperator : operatorValue integral op (g.graft v) (g.graft w) =
      (operatorValue integral op v w).map g.graft := operatorValue_graft hmeets
  rw [hoperator]
  exact tracks_ofExcept fun u hu => ⟨rfl, hv.operatorValue hu⟩

include hself hfits henv in
/-- Operators that compare no values. -/
theorem binaryValue_tracks {op : BinaryOp} {left right : Expr} (conversion : Option Expr) {ty : Ty}
    (hop : ¬ (op = .equal ∨ op = .notEqual)) (hleft : left.Hosts g.param g.bound)
    (hright : right.Hosts g.param g.bound)
    (hconversion : ∀ c ∈ conversion, c.Hosts g.param g.bound) :
    Tracks L R env env' g.Grafted (r.binaryValue self op left right conversion ty)
      (r.binaryValue self' op (g.into left) (g.into right) (conversion.map g.into) ty) := by
  have hstrict : Tracks L R env env' g.Grafted
      (do let v ← self left
          let w ← self right
          EvalM.ofExcept (operatorValue (r.isIntegral ty) op v w))
      (do let v ← self' (g.into left)
          let w ← self' (g.into right)
          EvalM.ofExcept (operatorValue (r.isIntegral ty) op v w)) := by
    refine tracks_bind (hself hleft henv) ?_
    rintro v _ ⟨⟨rfl, hv⟩, -⟩
    refine tracks_bind (hself hright henv) ?_
    rintro w _ ⟨⟨rfl, -⟩, -⟩
    exact operatorValue_tracks hv fun h => absurd h hop
  cases op with
  | equal => exact absurd (.inl rfl) hop
  | notEqual => exact absurd (.inr rfl) hop
  | andAlso | orElse => exact shortCircuit_tracks hself henv hleft hright
  | coalesce =>
      refine tracks_bind (hself hleft henv) ?_
      rintro v _ ⟨⟨rfl, hv⟩, -⟩
      have hnull : (g.graft v).isNull = v.isNull := Value.isNull_graft v
      rw [hnull]
      split
      · exact tracks_mono (hself hright henv) fun _ _ h => h.1
      · cases conversion with
        | none => exact tracks_pure ⟨rfl, hv⟩
        | some c =>
            exact applyLambda_tracks hfits hself henv (hconversion c rfl) (by simpa using hv)
  | _ => exact hstrict

include hself henv in
theorem equalityComparing_tracks {op : BinaryOp} {left right : Expr} {ty : Ty}
    (hleft : left.Hosts g.param g.bound) (hright : right.Hosts g.param g.bound)
    (hcompared : L lambdasCompared) :
    Tracks L R env env' g.Grafted
      (Registry.equalityComparing self (r.isIntegral ty) op left right)
      (do let v ← self' (g.into left)
          let w ← self' (g.into right)
          EvalM.ofExcept (operatorValue (r.isIntegral ty) op v w)) := by
  refine tracks_bind (hself hleft henv) ?_
  rintro v _ ⟨⟨rfl, hv⟩, -⟩
  refine tracks_bind (hself hright henv) ?_
  rintro w _ ⟨⟨rfl, -⟩, -⟩
  split
  · exact tracks_left hcompared
  · rename_i hmeets
    exact operatorValue_tracks hv fun _ => by simpa using hmeets

include hself hfits henv in
theorem methodComparing_tracks {m : Method} (receiver? : Option Value) {vs : List Value}
    (hreceiver : ∀ v ∈ receiver?, g.HostsAll v) (hvs : ∀ v ∈ vs, g.HostsAll v)
    (hcompared : L lambdasCompared) :
    Tracks L R env env' g.Grafted (Registry.methodComparing self m receiver? vs)
      (methodValue self' m (receiver?.map g.graft) (vs.map g.graft)) := by
  unfold Registry.methodComparing
  split
  · exact tracks_left hcompared
  · rename_i hmeets
    exact methodValue_tracks hfits hself henv hreceiver hvs (by simpa using hmeets)

include hself hfits henv in
/-- A node that is neither a reference nor a lambda. -/
theorem nodeComparing_tracks {e : Expr} (he : e.Hosts g.param g.bound) (hplain : e.Plain)
    (hcompared : L lambdasCompared) :
    Tracks L R env env' g.Grafted (r.nodeComparing self e) (r.evalNode self' (g.into e)) := by
  have hchild : ∀ c ∈ e.children, c.Hosts g.param g.bound := fun c hc => he.child hc
  rw [into, Expr.substitute_plain hplain]
  cases e using Expr.shapes with
  | param | lambda => exact hplain.elim
  | const v ty => exact tracks_pure (grafted_of_isData (he.data v ty (Expr.mem_nodes_self _)))
  | default ty => exact tracks_pure (grafted_of_isData (Registry.defaultOf_isData ty))
  | member target m =>
      have htarget := hchild target (by simp [Expr.children])
      refine tracks_bind (hself htarget henv) fun v w hvalued => ?_
      obtain ⟨-, -, hunderlying⟩ := hvalued.reads hfits htarget
      obtain ⟨⟨rfl, hv⟩, -⟩ := hvalued
      have hmember : ∀ isNullable, valueMember isNullable (g.graft v) m.name =
          (valueMember isNullable v m.name).map g.graft := fun _ => valueMember_graft
      show Tracks L R env env' g.Grafted _
        (EvalM.ofExcept (valueMember (r.underlying? (g.into target).ty).isSome (g.graft v) m.name))
      rw [hunderlying, hmember]
      exact tracks_ofExcept fun u hu => ⟨rfl, hv.valueMember hu⟩
  | unary op operand ty =>
      exact unaryValue_tracks hfits hself henv (hchild operand (by simp [Expr.children]))
  | binary op left right ty =>
      have hleft := hchild left (by simp [Expr.children])
      have hright := hchild right (by simp [Expr.children])
      have hother : ¬ (op = .equal ∨ op = .notEqual) → Tracks L R env env' g.Grafted
          (r.binaryValue self op left right none ty)
          (r.binaryValue self' op (g.into left) (g.into right) none ty) := fun hop =>
        binaryValue_tracks hfits hself henv none hop hleft hright (by simp)
      cases op with
      | equal | notEqual => exact equalityComparing_tracks hself henv hleft hright hcompared
      | _ => exact hother (by simp)
  | coalesce op left right c ty =>
      have hleft := hchild left (by simp [Expr.children])
      have hright := hchild right (by simp [Expr.children])
      have hc := hchild c (by simp [Expr.children])
      have hother : ¬ (op = .equal ∨ op = .notEqual) → Tracks L R env env' g.Grafted
          (r.binaryValue self op left right (some c) ty)
          (r.binaryValue self' op (g.into left) (g.into right) (some (g.into c)) ty) := fun hop =>
        binaryValue_tracks hfits hself henv (some c) hop hleft hright
          (by simpa using hc)
      cases op with
      | equal | notEqual => exact equalityComparing_tracks hself henv hleft hright hcompared
      | _ => exact hother (by simp)
  | cond test whenTrue whenFalse ty =>
      refine tracks_bind (hself (hchild test (by simp [Expr.children])) henv) ?_
      rintro v _ ⟨⟨rfl, -⟩, -⟩
      have hother : Tracks L R env env' g.Grafted (throw (.typeMismatch "Boolean" v.text))
          (throw (.typeMismatch "Boolean" (g.graft v).text)) := by
        rw [graft, Value.text_graft]
        exact tracks_throw
      cases v with
      | bool b =>
          cases b with
          | true =>
              exact tracks_mono (hself (hchild whenTrue (by simp [Expr.children])) henv)
                fun _ _ h => h.1
          | false =>
              exact tracks_mono (hself (hchild whenFalse (by simp [Expr.children])) henv)
                fun _ _ h => h.1
      | _ => exact hother
  | callStatic m args =>
      have hargs : ∀ e ∈ args, e.Hosts g.param g.bound := fun e hmem =>
        hchild e (by simp [Expr.children, hmem])
      refine tracks_bind (arguments_tracks hself henv hargs) ?_
      rintro vs _ ⟨rfl, hvs⟩
      exact methodComparing_tracks hfits hself henv none (by simp) hvs hcompared
  | call target m args =>
      have hargs : ∀ e ∈ args, e.Hosts g.param g.bound := fun e hmem =>
        hchild e (by simp [Expr.children, hmem])
      refine tracks_bind (hself (hchild target (by simp [Expr.children])) henv) ?_
      rintro v _ ⟨⟨rfl, hv⟩, -⟩
      refine tracks_bind (arguments_tracks hself henv hargs) ?_
      rintro vs _ ⟨rfl, hvs⟩
      exact methodComparing_tracks hfits hself henv (some v) (by simpa using hv) hvs hcompared
  | new ty inits =>
      have hinits : ∀ i ∈ inits, i.2.Hosts g.param g.bound := fun i hi =>
        hchild i.2 (List.mem_map_of_mem hi)
      refine tracks_map (initValues_tracks hself henv [] hinits (by simp)) ?_
      rintro fs _ ⟨rfl, hfs⟩
      exact ⟨Value.graft_record.symm, hostsAll_record.mpr hfs⟩
  | newArray ty items =>
      exact tracks_map (arguments_tracks hself henv hchild) fun vs ws h => h.list
  | typeIs operand tested ty =>
      have hoperand := hchild operand (by simp [Expr.children])
      refine tracks_bind (hself hoperand henv) fun v w hvalued => ?_
      obtain ⟨-, hinstance, -⟩ := hvalued.reads hfits hoperand
      show Tracks L R env env' g.Grafted _
        (pure (.bool (r.isInstance w (g.into operand).ty tested)))
      rw [hinstance tested]
      exact tracks_pure (grafted_of_isData rfl)
  | invoke f args ty =>
      have hargs : ∀ e ∈ args, e.Hosts g.param g.bound := fun e hmem =>
        hchild e (by simp [Expr.children, hmem])
      refine tracks_bind (hself (hchild f (by simp [Expr.children])) henv) ?_
      rintro v _ ⟨⟨rfl, hv⟩, -⟩
      refine tracks_bind (arguments_tracks hself henv hargs) ?_
      rintro vs _ ⟨rfl, hvs⟩
      exact applyValue_tracks hfits hself henv hv hvs

end Nodes

end Apply

/-! ## §4  Evaluation -/

section Eval

variable {r : Registry} {k : Nat}

/-- The parameter has the value that the argument has in its place. -/
theorem argument_tracks {n : Nat} {p : Parameter} (hp : p.id = g.param.id)
    (henv : g.Pair L env env') (hdata : g.value.isData = true)
    (hargument : Returns (r.eval n g.argument) env' g.value env' ∨
      R .tooDeep ∧ ((r.eval n g.argument).run env').1 = .error .tooDeep) :
    Tracks L R env env' (g.Valued (.param p)) (lookup p) (r.eval n (g.into (.param p))) := by
  have hinto : g.into (.param p) = g.argument := by rw [into, Expr.substitute, if_pos hp]
  unfold Tracks
  rw [hinto, run_lookup, hp, henv.value]
  rcases hargument with hvalue | ⟨hR, hdeep⟩
  · rw [show (r.eval n g.argument).run env' = _ from hvalue]
    exact .ok ⟨grafted_of_isData hdata, fun _ _ _ => rfl⟩
  · rw [show (r.eval n g.argument).run env' = (.error .tooDeep, _) from Prod.ext hdeep rfl]
    exact .right hR

/-- Another parameter is bound to what it is bound to, grafted. -/
theorem reference_tracks {p : Parameter} (hp : p.id ≠ g.param.id) (hbound : p.id ∈ g.bound)
    (henv : g.Pair L env env') :
    Tracks L R env env' (g.Valued (.param p)) (lookup p) (lookup p) := by
  unfold Tracks
  rw [run_lookup, run_lookup]
  cases hv : env.get? p.id with
  | none =>
      rcases henv.unbound p.id hbound hv with hL | hnone
      · exact .left (hL p.name)
      · rw [hnone]
        exact .error
  | some v =>
      obtain ⟨hv', hhosts⟩ := henv.others p.id v hp hv
      rw [hv']
      refine .ok ⟨⟨rfl, hhosts⟩, fun q hq hid => ?_⟩
      cases hq
      exact absurd hid hp

/-- The lambda over the value is evaluated alongside the spliced lambda, where the argument may be
followed deeper by `k`.  By induction on how deep evaluation follows. -/
theorem eval_tracks (hfits : g.Fits r) (hdeep : k = 0 ∨ L .tooDeep) (hcompared : L lambdasCompared)
    (hargument : ∀ n env', g.Around env' →
      Returns (r.eval (k + n + 1) g.argument) env' g.value env' ∨
        R .tooDeep ∧ ((r.eval (k + n + 1) g.argument).run env').1 = .error .tooDeep) :
    ∀ (n : Nat) {e : Expr} {env env' : Env}, e.Hosts g.param g.bound → g.Pair L env env' →
      Tracks L R env env' (g.Valued e) (r.evalComparing n e) (r.eval (k + n) (g.into e))
  | 0, e, _, _, _, _ => by
      rcases hdeep with rfl | hL
      · exact tracks_throw
      · exact tracks_left hL
  | n + 1, e, env, env', he, henv => by
      have hself : ∀ {e : Expr} {env env' : Env}, e.Hosts g.param g.bound → g.Pair L env env' →
          Tracks L R env env' (g.Valued e) (r.evalComparing n e) (r.eval (k + n) (g.into e)) :=
        eval_tracks hfits hdeep hcompared hargument n
      by_cases hplain : e.Plain
      · refine tracks_mono (nodeComparing_tracks hfits hself henv he hplain hcompared) ?_
        exact fun v w h => h.valued hplain.not_param
      · cases e with
        | param p =>
            by_cases hp : p.id = g.param.id
            · exact argument_tracks hp henv hfits.data (hargument n env' henv.around)
            · rw [into, Expr.substitute, if_neg hp]
              exact reference_tracks hp (he.within p (Expr.mem_nodes_self _) hp) henv
        | lambda ps body ty =>
            refine tracks_pure (Grafted.valued (by simp) ⟨rfl, fun x hx => ?_⟩)
            obtain rfl := List.mem_singleton.mp hx
            exact he
        | _ => exact absurd trivial hplain

end Eval

end Splice

end Recast
