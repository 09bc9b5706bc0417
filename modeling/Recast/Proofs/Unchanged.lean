import Recast.Proofs.Resolution
import Recast.Proofs.TypeSoundness

/-! # Expressions that mention no mapped type

Where every type that is looked up stands for itself, every node is kept: recasting
gives back the very same expression and leaves the table as it was.  Two facts carry
this through all kinds of nodes.  A parameter is replaced by itself only, and what is
registered on the way has two equal sides.

- `Keeps` — a computation that leaves table and parameters alone.
- `Recaster.recast_unchanged` — recasting keeps such an expression, and in particular
  a lambda over types that no mapping leads to.
-/

namespace Recast

/-! ## §1  How deep an expression is followed -/

namespace Expr

mutual

/-- The levels of an expression.  The members of one chain are one level, and so are the binary
nodes along the left operands. -/
def levels : Expr → Nat
  | .param _ | .const _ _ | .default _ => 1
  | .member e _ => if e.isMember then levels e else levels e + 1
  | .lambda _ e _ | .unary _ e _ | .typeIs e _ _ => levels e + 1
  | .binary _ l r none _ => max (if l.isBinary then levels l else levels l + 1) (levels r + 1)
  | .binary _ l r (some c) _ =>
    max (max (if l.isBinary then levels l else levels l + 1) (levels r + 1)) (levels c + 1)
  | .cond c a b _ => max (max (levels c) (levels a)) (levels b) + 1
  | .call none _ args => levelsAll args + 1
  | .call (some e) _ args => max (levels e) (levelsAll args) + 1
  | .new _ inits => levelsInits inits + 1
  | .newArray _ items => levelsAll items + 1
  | .invoke f args _ => max (levels f) (levelsAll args) + 1

def levelsAll : List Expr → Nat
  | [] => 0
  | e :: es => max (levels e) (levelsAll es)

def levelsInits : List (String × Expr) → Nat
  | [] => 0
  | (_, e) :: inits => max (levels e) (levelsInits inits)

end

theorem levels_pos (e : Expr) : 0 < e.levels := by
  induction e using induction_children with
  | step e ih =>
      cases e using shapes with
      | member e m =>
          have he := ih e (by simp [children])
          rw [levels]
          split <;> omega
      | binary | coalesce =>
          rw [levels]
          omega
      | _ => simp [levels]

theorem levels_le_levelsAll {e : Expr} : ∀ {es : List Expr}, e ∈ es → e.levels ≤ levelsAll es
  | x :: xs, h => by
      rw [levelsAll]
      rcases List.mem_cons.mp h with rfl | h
      · exact Nat.le_max_left _ _
      · exact Nat.le_trans (levels_le_levelsAll h) (Nat.le_max_right _ _)

theorem levels_le_levelsInits {e : Expr} : ∀ {inits : List (String × Expr)},
    e ∈ inits.map (·.2) → e.levels ≤ levelsInits inits
  | (_, x) :: inits, h => by
      rw [levelsInits]
      rcases List.mem_cons.mp h with rfl | h
      · exact Nat.le_max_left _ _
      · exact Nat.le_trans (levels_le_levelsInits h) (Nat.le_max_right _ _)

theorem levels_lt_of_child {e c : Expr} (hmember : e.isMember = false)
    (hbinary : e.isBinary = false) (h : c ∈ e.children) : c.levels < e.levels := by
  cases e using shapes with
  | param | const | default => simp [children] at h
  | member e m => cases hmember
  | binary | coalesce => cases hbinary
  | lambda ps e t | unary op e t | typeIs e tested t =>
      obtain rfl := List.mem_singleton.mp h
      exact Nat.lt_succ_self _
  | cond a b d t =>
      simp only [children, List.mem_cons, List.not_mem_nil, or_false] at h
      rw [levels]
      rcases h with rfl | rfl | rfl <;> omega
  | callStatic m args =>
      exact Nat.lt_succ_of_le (levels_le_levelsAll (by simpa [children] using h))
  | call target m args =>
      simp only [children, Option.toList, List.cons_append, List.nil_append, List.mem_cons] at h
      rw [levels]
      rcases h with rfl | h
      · omega
      · have hargs := levels_le_levelsAll h
        omega
  | new t inits => exact Nat.lt_succ_of_le (levels_le_levelsInits h)
  | newArray t items => exact Nat.lt_succ_of_le (levels_le_levelsAll h)
  | invoke f args t =>
      simp only [children, List.mem_cons] at h
      rw [levels]
      rcases h with rfl | h
      · omega
      · have hargs := levels_le_levelsAll h
        omega

/-- Only the left operand of a binary node, and only if it is binary too, is on its level. -/
theorem levels_binary {n : Nat} {op : BinaryOp} {l r : Expr} {conversion : Option Expr} {t : Ty}
    (h : (Expr.binary op l r conversion t).levels ≤ n + 1) :
    (l.isBinary = true → l.levels ≤ n + 1) ∧ (l.isBinary = false → l.levels ≤ n) ∧
      r.levels ≤ n ∧ ∀ c ∈ conversion, c.levels ≤ n := by
  cases conversion with
  | none =>
      rw [levels] at h
      refine ⟨fun hl => ?_, fun hl => ?_, ?_, by simp⟩
      · rw [if_pos hl] at h
        omega
      · rw [if_neg (by simp [hl])] at h
        omega
      · split at h <;> omega
  | some c =>
      rw [levels] at h
      refine ⟨fun hl => ?_, fun hl => ?_, ?_, ?_⟩
      · rw [if_pos hl] at h
        omega
      · rw [if_neg (by simp [hl])] at h
        omega
      · split at h <;> omega
      · rintro c' ⟨⟩
        split at h <;> omega

/-- The base of a chain is below it. -/
theorem levels_chainBase : ∀ {e : Expr} {m : Member},
    (Expr.member e m).chainBase.levels + 1 = (Expr.member e m).levels
  | .member e m, _ => levels_chainBase (e := e) (m := m)
  | .binary op l r c t, _ => by cases c <;> rfl
  | .call target m args, _ => by cases target <;> rfl
  | .param _, _ | .const _ _, _ | .default _, _ | .lambda _ _ _, _ | .unary _ _ _, _
  | .cond _ _ _ _, _ | .new _ _, _ | .newArray _ _, _ | .typeIs _ _ _, _ | .invoke _ _ _, _ => rfl

end Expr

/-! ## §2  Computations that leave everything as it is -/

/-- The table as given, and no parameter replaced by another. -/
structure Idle (table : TypeTable) (known : List Parameter) (s : RecastState) : Prop where
  table : s.table = table
  replaced : ∀ p ∈ known, ∀ q, s.replacements.get? p = some q → q = p

/-- Ends well with that answer, and leaves table and parameters alone. -/
def Keeps {α : Type} (table : TypeTable) (known : List Parameter) (x : RecastM α) (a : α) : Prop :=
  ∀ s, Idle table known s → ∃ s', Returns x s a s' ∧ Idle table known s'

section Computations

variable {α β : Type} {table : TypeTable} {known : List Parameter}

theorem Keeps.pure (a : α) : Keeps table known (Pure.pure a) a :=
  fun s hs => ⟨s, returns_pure.mpr ⟨rfl, rfl⟩, hs⟩

theorem Keeps.bind {x : RecastM α} {f : α → RecastM β} {a : α} {b : β}
    (hx : Keeps table known x a) (hf : Keeps table known (f a) b) :
    Keeps table known (x >>= f) b := by
  intro s hs
  obtain ⟨s', hx, hs'⟩ := hx s hs
  obtain ⟨s'', hf, hs''⟩ := hf s' hs'
  exact ⟨s'', returns_bind.mpr ⟨a, s', hx, hf⟩, hs''⟩

/-- A computation on the table that changes nothing. -/
theorem Keeps.onTable {x : TableM α} {a : α} (hx : Returns x table a table) :
    Keeps table known (RecastM.onTable x) a := by
  rintro s ⟨rfl, hreplaced⟩
  exact ⟨s, RecastM.returns_onTable.mpr ⟨s.table, hx, rfl⟩, rfl, hreplaced⟩

end Computations

/-- A type corresponds to itself anyway. -/
theorem Configuration.returns_relate_self (c : Configuration) (t : Ty) (table : TypeTable) :
    Returns (c.relate t t) table () table :=
  Configuration.returns_relate_iff.mpr (.skip (.inl rfl) (.done table))

/-- Within one type a path is followed by its own members. -/
theorem Configuration.returns_dataPath_self {c : Configuration} {t : Ty} {names : List String}
    {ms : List Member} {limit : Nat} {table : TypeTable} (hlimit : 0 < limit) (hne : names ≠ [])
    (hms : c.types.requireMembers t names = .ok ms) :
    Returns (c.dataPath t t names limit) table [.members ms] table := by
  have hsome : ms ≠ [] := by
    rintro rfl
    exact hne (Registry.names_of_requireMembers hms).symm
  obtain ⟨name, rest, rfl⟩ := List.exists_cons_of_ne_nil hne
  obtain ⟨budget, rfl⟩ := Nat.exists_eq_add_one.mpr hlimit
  rw [dataPath, followPath, if_pos rfl]
  simp only [returns_bind, TableM.returns_ofChecked, returns_pure]
  refine ⟨ms, table, ⟨hms, rfl⟩, ?_, rfl⟩
  rw [DataStep.appendMembers, if_neg (by simpa using hsome)]
  rfl

/-- Behind the base of a chain come the members that the chain names. -/
theorem Registry.requireMembers_chain {r : Registry} : ∀ {e : Expr}, r.WellTyped e →
    ∃ ms, ∀ rest more, r.requireMembers e.ty rest = .ok more →
      r.requireMembers e.chainBase.ty (e.chainNames ++ rest) = .ok (ms ++ more)
  | .member e m, he => by
      obtain ⟨ms, hms⟩ := requireMembers_chain (he.child List.mem_cons_self)
      have hm := nodeTyped_member.mp he.node
      refine ⟨ms ++ [m], fun rest more hmore => ?_⟩
      rw [Expr.chainNames, List.append_assoc, List.append_assoc]
      refine hms (m.name :: rest) (m :: more) ?_
      simp only [requireMembers, Checked.bind_eq_ok, requireMember_eq_ok, Checked.pure_eq_ok]
      exact ⟨m, hm, more, hmore, rfl⟩
  | .param _, _ | .const _ _, _ | .default _, _ | .lambda _ _ _, _ | .unary _ _ _, _
  | .binary _ _ _ _ _, _ | .cond _ _ _ _, _ | .call _ _ _, _ | .new _ _, _ | .newArray _ _, _
  | .typeIs _ _ _, _ | .invoke _ _ _, _ => ⟨[], fun _ _ h => h⟩

theorem Registry.requireMembers_chainNames {r : Registry} {e : Expr} (he : r.WellTyped e) :
    ∃ ms, r.requireMembers e.chainBase.ty e.chainNames = .ok ms := by
  obtain ⟨ms, hms⟩ := requireMembers_chain he
  exact ⟨ms, by simpa using hms [] [] rfl⟩

/-! ## §3  Nodes -/

namespace Registry

variable (r : Registry)

/-- The types of a node that recasting looks up: those of parameters and constants, those that
conversions lead to and type tests ask for, those of records, array elements and defaults. -/
def lookedUp : Expr → List Ty
  | .param p => [p.ty]
  | .const _ t => [t]
  | .lambda ps _ _ => ps.map (·.ty)
  | .unary op _ t => if op.isConversion then [t] else []
  | .new t _ => if r.isAnonymous t then [] else [t]
  | .newArray t _ => [(r.element? t).getD t]
  | .typeIs _ tested _ => [tested]
  | .default t => [t]
  | _ => []

/-- Every type that is looked up in the expression stands for itself. -/
def Unmapped (table : TypeTable) (e : Expr) : Prop :=
  ∀ n ∈ e.nodes, ∀ t ∈ r.lookedUp n, table.dataType r t = t

/-- What has to hold of an expression for its nodes to be kept. -/
structure Quiet (table : TypeTable) (known : List Parameter) (e : Expr) : Prop where
  typed : r.WellTyped e
  unmapped : r.Unmapped table e
  known : e.parameters ⊆ known

variable {r} {table : TypeTable} {known : List Parameter} {e : Expr}

theorem Quiet.of_nodes {x : Expr} (h : r.Quiet table known e) (hx : x.nodes ⊆ e.nodes) :
    r.Quiet table known x where
  typed n hn := h.typed n (hx hn)
  unmapped n hn := h.unmapped n (hx hn)
  known _ hp := h.known (Expr.parameters_subset_of_nodes hx hp)

theorem Quiet.child {c : Expr} (h : r.Quiet table known e) (hc : c ∈ e.children) :
    r.Quiet table known c :=
  h.of_nodes (Expr.nodes_subset_of_child hc)

theorem Quiet.chainBase (h : r.Quiet table known e) : r.Quiet table known e.chainBase :=
  h.of_nodes (Expr.nodes_subset_of_mem e.chainBase_mem_nodes)

theorem Quiet.lookedUp (h : r.Quiet table known e) : ∀ t ∈ r.lookedUp e, table.dataType r t = t :=
  h.unmapped e (Expr.mem_nodes_self e)

theorem Quiet.named (h : r.Quiet table known e) : e.named ⊆ known :=
  fun _ hp => h.known (e.named_subset_parameters hp)

end Registry

namespace Recaster

variable {w : Recaster} {table : TypeTable} {known : List Parameter}

/-! ### Types and parameters -/

theorem dataType_keeps {t : Ty} (h : table.dataType w.types t = t) :
    Keeps table known (w.dataType t) t := by
  rintro s ⟨rfl, hreplaced⟩
  exact ⟨_, returns_dataType.mpr ⟨h, rfl⟩, rfl, hreplaced⟩

theorem relate_keeps (t : Ty) : Keeps table known (w.relate t t) () :=
  .onTable (w.config.returns_relate_self t table)

section Parameters

variable (hdistinct : ∀ p ∈ known, ∀ q ∈ known, p.id = q.id → p = q)
include hdistinct

/-- A parameter of a type that stays is replaced by itself. -/
theorem replace_keeps {p : Parameter} (hp : p ∈ known)
    (h : table.dataType w.types p.ty = p.ty) : Keeps table known (w.replace p) p := by
  rintro s ⟨rfl, hreplaced⟩
  cases hget : s.replacements.get? p with
  | some q =>
      obtain rfl := hreplaced p hp q hget
      refine ⟨_, returns_replace.mpr ⟨s.replacements, s.fresh, ?_, rfl⟩, rfl, hreplaced⟩
      simp [Replacements.replace, hget]
  | none =>
      refine ⟨_, returns_replace.mpr ⟨⟨(p.id, p) :: s.replacements.entries⟩, s.fresh, ?_, rfl⟩,
        rfl, fun p' hp' q hq => ?_⟩
      · simp [Replacements.replace, hget, h]
      · rw [Replacements.get?, List.lookup_cons] at hq
        split at hq
        · rename_i hid
          rw [← Option.some.inj hq]
          exact hdistinct p hp p' hp' (beq_iff_eq.mp hid).symm
        · exact hreplaced p' hp' q hq

theorem replaceAll_keeps : ∀ {ps : List Parameter}, ps ⊆ known →
    (∀ p ∈ ps, table.dataType w.types p.ty = p.ty) → Keeps table known (w.replaceAll ps) ps
  | [], _, _ => .pure []
  | p :: _, hps, h =>
      .bind (replace_keeps hdistinct (hps List.mem_cons_self) (h p List.mem_cons_self))
        (.bind (replaceAll_keeps (fun _ hq => hps (List.mem_cons_of_mem p hq))
          fun q hq => h q (List.mem_cons_of_mem p hq)) (.pure _))

end Parameters

/-! ### Nodes below -/

variable {self : Expr → RecastM Outcome}

theorem all_keeps : ∀ {es : List Expr}, (∀ e ∈ es, Keeps table known (self e) .kept) →
    Keeps table known (all self es) (es, true)
  | [], _ => .pure _
  | e :: _, h =>
      .bind (h e List.mem_cons_self)
        (.bind (all_keeps fun x hx => h x (List.mem_cons_of_mem e hx)) (.pure _))

theorem optional_keeps : ∀ {e? : Option Expr}, (∀ e ∈ e?, Keeps table known (self e) .kept) →
    Keeps table known (optional self e?) (e?, true)
  | none, _ => .pure _
  | some e, h => .bind (h e rfl) (.pure _)

theorem arguments_keeps : ∀ {es : List Expr}, (∀ e ∈ es, Keeps table known (self e) .kept) →
    Keeps table known (w.arguments self es) (es, true)
  | [], _ => .pure _
  | e :: _, h =>
      .bind (h e List.mem_cons_self) (.bind (relate_keeps e.ty)
        (.bind (arguments_keeps fun x hx => h x (List.mem_cons_of_mem e hx)) (.pure _)))

/-- Members of a type that stays are found where they were. -/
theorem member_keeps {e : Expr} {m : Member} (hwell : w.types.WellTyped (.member e m))
    (hdepth : 0 < w.options.maxDepth)
    (hbase : Keeps table known (self (Expr.member e m).chainBase) .kept) :
    Keeps table known (w.member self (.member e m)) .kept := by
  obtain ⟨ms, hms⟩ := Registry.requireMembers_chainNames hwell
  have hnames := Registry.names_of_requireMembers hms
  refine .bind hbase (.bind (.onTable (Configuration.returns_dataPath_self hdepth
    (by simp [Expr.chainNames]) hms)) ?_)
  rw [if_pos (by simp [DataStep.isCustom, Outcome.isKept, retraces, hnames])]
  exact .pure _

theorem lambda_keeps (hdistinct : ∀ p ∈ known, ∀ q ∈ known, p.id = q.id → p = q)
    {params : List Parameter} {body : Expr} (hparams : params ⊆ known)
    (htypes : ∀ p ∈ params, table.dataType w.types p.ty = p.ty)
    (hbody : Keeps table known (self body) .kept) :
    Keeps table known (w.lambda self params body) .kept := by
  refine .bind (replaceAll_keeps hdistinct hparams htypes) (.bind hbody ?_)
  rw [if_pos (by simp [Outcome.isKept])]
  exact .pure _

theorem operand_keeps {op : UnaryOp} {e : Expr} {t : Ty}
    (htype : op.isConversion = true → table.dataType w.types t = t)
    (he : Keeps table known (self e) .kept) :
    Keeps table known (w.operand self op e t) .kept := by
  refine .bind he ?_
  have htarget : Keeps table known (w.conversionTarget op t) t := by
    unfold conversionTarget
    split
    · rename_i hop
      exact dataType_keeps (htype hop)
    · exact .pure t
  split
  · exact .pure _
  · refine .bind htarget ?_
    rw [if_pos (by simp [Outcome.isKept])]
    exact .pure _

theorem unary_keeps {op : UnaryOp} {e : Expr} {t : Ty}
    (htype : op.isConversion = true → table.dataType w.types t = t)
    (he : Keeps table known (self e) .kept) : Keeps table known (w.unary self op e t) .kept := by
  unfold unary
  split
  · rename_i v u hconstant
    have hop : op.isConversion = true := by
      unfold convertedConstant? at hconstant
      split at hconstant
      · rfl
      · rfl
      · cases hconstant
    refine .bind (dataType_keeps (htype hop)) ?_
    rw [if_neg (fun hne => hne rfl)]
    exact operand_keeps htype he
  · exact operand_keeps htype he

theorem operands_keeps {left right : Expr} {leftDone : Option Outcome}
    (hleft : leftDone = none → Keeps table known (self left) .kept)
    (hdone : leftDone = none ∨ leftDone = some .kept)
    (hright : Keeps table known (self right) .kept) :
    Keeps table known (operands self left right leftDone) (.kept, .kept) := by
  rcases hdone with rfl | rfl
  · simp only [operands]
    split
    · refine .bind hright (.bind (hleft rfl) ?_)
      exact .pure _
    · refine .bind (hleft rfl) (.bind hright ?_)
      exact .pure _
  · refine .bind hright ?_
    exact .pure _

theorem binaryNode_keeps {op : BinaryOp} {left right : Expr} {conversion : Option Expr}
    {leftDone : Option Outcome} (hleft : leftDone = none → Keeps table known (self left) .kept)
    (hdone : leftDone = none ∨ leftDone = some .kept)
    (hright : Keeps table known (self right) .kept)
    (hconversion : ∀ e ∈ conversion, Keeps table known (self e) .kept) :
    Keeps table known (w.binaryNode self op left right conversion leftDone) .kept :=
  .bind (operands_keeps hleft hdone hright) (.bind (optional_keeps hconversion) (.pure _))

section Levels

variable {n : Nat} (hself : ∀ e, w.types.Quiet table known e → e.levels ≤ n →
  Keeps table known (self e) .kept)
include hself

/-- Along the left operands, each node is kept as the one inside it was. -/
theorem spine_keeps : ∀ {e : Expr}, w.types.Quiet table known e → e.isBinary = true →
    e.levels ≤ n + 1 → Keeps table known (w.spine self e) .kept := by
  intro e
  induction e using Recaster.spine.induct with
  | case1 op left right conversion t hleft ih =>
      intro he _ hn
      obtain ⟨hlevels, -, hright, hconversion⟩ := Expr.levels_binary hn
      have hl := ih (he.child (by simp [Expr.children])) hleft (hlevels hleft)
      have hr := hself right (he.child (by simp [Expr.children])) hright
      rw [spine, if_pos hleft]
      refine .bind hl (binaryNode_keeps (by simp) (.inr rfl) hr fun c hc => ?_)
      exact hself c (he.child (by simp [Expr.children, Option.mem_def.mp hc])) (hconversion c hc)
  | case2 op left right conversion t hleft =>
      intro he _ hn
      obtain ⟨-, hlevels, hright, hconversion⟩ := Expr.levels_binary hn
      have hl := hself left (he.child (by simp [Expr.children])) (hlevels (by simpa using hleft))
      have hr := hself right (he.child (by simp [Expr.children])) hright
      rw [spine, if_neg hleft]
      refine binaryNode_keeps (fun _ => hl) (.inl rfl) hr fun c hc => ?_
      exact hself c (he.child (by simp [Expr.children, Option.mem_def.mp hc])) (hconversion c hc)
  | case3 e hbinary =>
      intro _ h
      cases e with
      | binary op left right conversion t => exact absurd rfl (hbinary op left right conversion t)
      | _ => cases h

theorem node_keeps (hdistinct : ∀ p ∈ known, ∀ q ∈ known, p.id = q.id → p = q)
    (hdepth : 0 < w.options.maxDepth) {e : Expr} (he : w.types.Quiet table known e)
    (hn : e.levels ≤ n + 1) : Keeps table known (w.node self e) .kept := by
  have hbelow : e.isMember = false → e.isBinary = false → ∀ c ∈ e.children,
      Keeps table known (self c) .kept := by
    intro hmember hbinary c hc
    have hlt := Expr.levels_lt_of_child hmember hbinary hc
    exact hself c (he.child hc) (by omega)
  cases e with
  | param p =>
      refine .bind (replace_keeps hdistinct (he.named List.mem_cons_self)
        (he.lookedUp _ List.mem_cons_self)) ?_
      rw [if_pos rfl]
      exact .pure _
  | const v t =>
      refine .bind (dataType_keeps (he.lookedUp t List.mem_cons_self)) ?_
      rw [if_pos rfl]
      exact .pure _
  | member e m =>
      -- A chain of members is one level, whatever its length.
      have hbase := Expr.levels_chainBase (e := e) (m := m)
      exact member_keeps he.typed hdepth (hself _ he.chainBase (by omega))
  | lambda params body t =>
      exact lambda_keeps hdistinct he.named
        (fun p hp => he.lookedUp _ (List.mem_map_of_mem hp)) (hbelow rfl rfl body (by simp [Expr.children]))
  | unary op operand t =>
      refine unary_keeps (fun hop => he.lookedUp t ?_) (hbelow rfl rfl operand (by simp [Expr.children]))
      rw [Registry.lookedUp, if_pos hop]
      exact List.mem_cons_self
  | binary op left right conversion t => exact spine_keeps hself he rfl hn
  | cond a b d t =>
      refine .bind (hbelow rfl rfl a (by simp [Expr.children]))
        (.bind (hbelow rfl rfl b (by simp [Expr.children]))
          (.bind (hbelow rfl rfl d (by simp [Expr.children])) ?_))
      exact .pure _
  | call target m args =>
      refine .bind (optional_keeps fun c hc => hbelow rfl rfl c ?_)
        (.bind (arguments_keeps fun c hc => hbelow rfl rfl c ?_) (.pure _))
      · simp [Expr.children, Option.mem_def.mp hc]
      · simp [Expr.children, hc]
  | new t inits =>
      refine .bind (all_keeps fun c hc => hbelow rfl rfl c hc) ?_
      dsimp only
      split
      · exact .pure _
      · rename_i hanonymous
        refine .bind (dataType_keeps (he.lookedUp t ?_)) ?_
        · rw [Registry.lookedUp, if_neg hanonymous]
          exact List.mem_cons_self
        · rw [if_pos rfl]
          exact .pure _
  | newArray t items =>
      refine .bind (all_keeps fun c hc => hbelow rfl rfl c hc)
        (.bind (dataType_keeps (he.lookedUp _ List.mem_cons_self)) ?_)
      rw [if_pos ⟨rfl, rfl⟩]
      exact .pure _
  | typeIs operand tested t =>
      refine .bind (hbelow rfl rfl operand (by simp [Expr.children]))
        (.bind (dataType_keeps (he.lookedUp tested List.mem_cons_self)) ?_)
      rw [if_pos ⟨rfl, rfl⟩]
      exact .pure _
  | invoke f args t =>
      refine .bind (hbelow rfl rfl f (by simp [Expr.children]))
        (.bind (all_keeps fun c hc => hbelow rfl rfl c (by simp [Expr.children, hc])) (.pure _))
  | default t =>
      refine .bind (dataType_keeps (he.lookedUp t List.mem_cons_self)) ?_
      rw [if_pos rfl]
      exact .pure _

end Levels

theorem recastWithin_keeps (hdistinct : ∀ p ∈ known, ∀ q ∈ known, p.id = q.id → p = q)
    (hdepth : 0 < w.options.maxDepth) : ∀ n e, w.types.Quiet table known e → e.levels ≤ n →
      Keeps table known (w.recastWithin n e) .kept
  | 0, _, _, hn => absurd hn (Nat.not_le_of_lt (Expr.levels_pos _))
  | n + 1, _, he, hn => node_keeps (recastWithin_keeps hdistinct hdepth n) hdistinct hdepth he hn

end Recaster

/-! ## §4  Whole expressions -/

namespace LambdaRecaster

variable {m : LambdaRecaster}

/-- No mapping leads to the types of the parameters, so there is nothing to start from. -/
theorem returns_seedUnique : ∀ {ps : List Parameter},
    (∀ p ∈ ps, ∀ map ∈ m.config.maps, map.destination ≠ p.ty) → ∀ s : RecastState,
      Returns (m.seedUnique ps) s () s
  | [], _, s => returns_pure.mpr ⟨rfl, rfl⟩
  | p :: ps, h, s => by
      have hrest := returns_seedUnique (fun q hq => h q (List.mem_cons_of_mem p hq)) s
      have hnone : m.config.onlySource p.ty = .ok none := by
        have hfilter : m.config.maps.filter (·.destination == p.ty) = [] := by
          simpa using h p List.mem_cons_self
        rw [Configuration.onlySource, hfilter]
        rfl
      have honly : Returns (m.seedOnly p.ty) s () s := by
        unfold seedOnly
        rw [hnone]
        exact returns_bind.mpr ⟨none, s, RecastM.returns_ofChecked.mpr ⟨rfl, rfl⟩,
          returns_pure.mpr ⟨rfl, rfl⟩⟩
      refine returns_bind.mpr ⟨s, s, returns_get.mpr ⟨rfl, rfl⟩, ?_⟩
      split
      · exact hrest
      · exact returns_bind.mpr ⟨(), s, honly, hrest⟩

/-- A quoted expression that is kept gets the same quote again. -/
theorem finish_kept {e : Expr} (he : m.types.WellTyped e) :
    ∃ o, m.finish e none .kept = .ok o ∧ o.on e = e ∧ (isQuoted e = false → o = .kept) := by
  cases hquoted : isQuoted e with
  | false =>
      refine ⟨.kept, ?_, rfl, fun _ => rfl⟩
      simp [finish, fitOutcome, hquoted]
  | true =>
      obtain ⟨inner, t, rfl⟩ : ∃ inner t, e = .unary .quote inner t := by
        unfold isQuoted at hquoted
        split at hquoted
        · exact ⟨_, _, rfl⟩
        · cases hquoted
      have hquote : m.types.mkQuote inner = .ok (.unary .quote inner t) := he.node
      refine ⟨.made (.unary .quote inner t), ?_, rfl, fun h => by cases h⟩
      simp [finish, fitOutcome, isQuoted, unquoted, Outcome.on, hquote]

theorem levels_unquoted_le (e : Expr) : (unquoted e).levels ≤ e.levels := by
  unfold unquoted
  split
  · exact Nat.le_succ _
  · exact Nat.le_refl _

theorem quiet_unquoted {r : Registry} {table : TypeTable} {known : List Parameter} {e : Expr}
    (h : r.Quiet table known e) : r.Quiet table known (unquoted e) := by
  unfold unquoted
  split
  · exact h.child (by simp [Expr.children])
  · exact h

end LambdaRecaster

/-- An expression that mentions no mapped type is kept, and so is the table.  In particular a
lambda is kept, with the quote around it if it has one, when no mapping leads to the types of its
parameters: recasting a recast lambda again does nothing. -/
theorem Recaster.recast_unchanged (w : Recaster) {e : Expr} (hwell : w.types.WellTyped e)
    (hdistinct : e.DistinctNumbers) (hdepth : e.levels ≤ w.options.maxDepth) :
    (∀ s : RecastState, s.replacements = {} → w.types.Unmapped s.table e →
      ∃ s', Returns (w.recast e) s .kept s' ∧ s'.table = s.table) ∧
    (∀ params body t fresh, e.lambdaParts? = some (params, body, t) →
      (∀ p ∈ params, ∀ map ∈ w.config.maps, map.destination ≠ p.ty) →
      ∃ o s', Returns (LambdaRecaster.recast ⟨w.config, w.mapper, w.options⟩ e none w.asInclude)
          { fresh := fresh } o s' ∧
        o.on e = e ∧ (LambdaRecaster.isQuoted e = false → o = .kept) ∧ s'.table = {}) := by
  have hpos : 0 < w.options.maxDepth := Nat.lt_of_lt_of_le e.levels_pos hdepth
  have hidle : ∀ s : RecastState, s.replacements = {} → Idle s.table e.parameters s := by
    rintro s hs
    refine ⟨rfl, fun p _ q hq => ?_⟩
    rw [hs] at hq
    cases hq
  have hquiet : ∀ table : TypeTable, w.types.Unmapped table e →
      w.types.Quiet table e.parameters e := fun _ hunmapped => ⟨hwell, hunmapped, List.Subset.refl _⟩
  refine ⟨fun s hs hunmapped => ?_, fun params body t fresh hparts hparams => ?_⟩
  · obtain ⟨s', hreturns, hs'⟩ :=
      recastWithin_keeps hdistinct hpos _ e (hquiet _ hunmapped) hdepth s (hidle s hs)
    exact ⟨s', hreturns, hs'.table⟩
  · -- No mapping leads to the parameters, so nothing is registered before the body is recast.
    have hunmapped : w.types.Unmapped {} e := fun _ _ t _ => TypeTable.dataType_empty w.types t
    have hquiet := LambdaRecaster.quiet_unquoted (hquiet {} hunmapped)
    have hlevels := Nat.le_trans (LambdaRecaster.levels_unquoted_le e) hdepth
    obtain ⟨s', hreturns, hs'⟩ := recastWithin_keeps hdistinct hpos _ _ hquiet hlevels
      { fresh := fresh } (hidle { fresh := fresh } rfl)
    obtain ⟨o, hfinish, hon, hkept⟩ := LambdaRecaster.finish_kept (m := ⟨w.config, w.mapper, w.options⟩) hwell
    refine ⟨o, s', ?_, hon, hkept, hs'.table⟩
    exact LambdaRecaster.returns_recast.mpr
      ⟨_, _, _, _, .kept, hparts, LambdaRecaster.returns_seedUnique hparams _, hreturns, hfinish⟩

/-! ### A lambda over orders, recast once -/

namespace LambdaRecaster.Orders

def keeper : Recaster := { config := recaster.config, mapper := .keep, options := {} }

/-- The table that was needed to recast it. -/
def table : TypeTable := ⟨[(model, order)]⟩

theorem isXOnOrder_wellTyped : registry.WellTyped isXOnOrder := by
  intro n hn
  simp only [isXOnOrder, Registry.mkLambda, Expr.nodes, List.cons_append, List.nil_append,
    List.mem_cons, List.not_mem_nil, or_false] at hn
  rcases hn with rfl | rfl | rfl | rfl | rfl
  · exact .inl rfl
  · rfl
  · rfl
  · trivial
  · trivial

theorem isXOnOrder_unmapped : registry.Unmapped table isXOnOrder := by
  intro n hn t ht
  simp only [isXOnOrder, Registry.mkLambda, Expr.nodes, List.cons_append, List.nil_append,
    List.mem_cons, List.not_mem_nil, or_false] at hn
  rcases hn with rfl | rfl | rfl | rfl | rfl <;>
    simp only [Registry.lookedUp, List.map_cons, List.map_nil, List.mem_singleton,
      List.not_mem_nil] at ht
  all_goals
    subst ht
    rfl

end LambdaRecaster.Orders

open LambdaRecaster.Orders in
theorem Recaster.recast_unchanged_orders :
    (∃ s', Returns (keeper.recast isXOnOrder) { table := table } .kept s' ∧ s'.table = table) ∧
      ∃ o s', Returns (recaster.recast isXOnOrder none false) { fresh := 3 } o s' ∧
        o.on isXOnOrder = isXOnOrder ∧
        (LambdaRecaster.isQuoted isXOnOrder = false → o = .kept) ∧ s'.table = {} := by
  have hdistinct : isXOnOrder.DistinctNumbers := by
    unfold Expr.DistinctNumbers
    decide
  obtain ⟨hkept, hlambda⟩ := keeper.recast_unchanged isXOnOrder_wellTyped hdistinct (by decide)
  refine ⟨hkept { table := table } rfl isXOnOrder_unmapped, hlambda _ _ _ 3 rfl ?_⟩
  intro p hp map hmap
  obtain rfl := List.mem_singleton.mp hp
  obtain rfl := List.mem_singleton.mp hmap
  decide

end Recast
