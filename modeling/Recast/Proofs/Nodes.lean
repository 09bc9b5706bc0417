import Recast.Expr.Basic

/-! # Nodes of expressions

The nodes of an expression are the expression itself and the nodes of its
children, so that a property can be shown from the children upwards
(`Expr.induction_children`).  A substitution acts on the children of every node
that is no parameter.
-/

namespace Recast

namespace Expr

/-! ## Nodes and children -/

theorem nodesAll_eq : ∀ es : List Expr, nodesAll es = es.flatMap nodes
  | [] => rfl
  | e :: es => by rw [nodesAll, nodesAll_eq es, List.flatMap_cons]

theorem nodesInits_eq : ∀ inits : List (String × Expr),
    nodesInits inits = (inits.map (·.2)).flatMap nodes
  | [] => rfl
  | (_, e) :: inits => by rw [nodesInits, nodesInits_eq inits, List.map_cons, List.flatMap_cons]

theorem nodes_eq (e : Expr) : e.nodes = e :: e.children.flatMap nodes := by
  cases e with
  | binary op l r conversion t =>
      cases conversion <;> simp [nodes, children]
  | call target m args =>
      cases target <;> simp [nodes, children, nodesAll_eq]
  | _ => simp [nodes, children, nodesAll_eq, nodesInits_eq]

theorem mem_nodes_self (e : Expr) : e ∈ e.nodes := by
  rw [nodes_eq]
  exact List.mem_cons_self

theorem nodes_subset_of_child {e c : Expr} (h : c ∈ e.children) : c.nodes ⊆ e.nodes := by
  intro n hn
  rw [nodes_eq e]
  exact List.mem_cons_of_mem _ (List.mem_flatMap.mpr ⟨c, h, hn⟩)

/-! ## Induction -/

theorem size_le_sizeAll {e : Expr} : ∀ {es : List Expr}, e ∈ es → e.size ≤ sizeAll es
  | x :: xs, h => by
      rcases List.mem_cons.mp h with rfl | h
      · exact Nat.le_add_right _ _
      · exact Nat.le_trans (size_le_sizeAll h) (Nat.le_add_left _ _)

theorem size_le_sizeInits {e : Expr} : ∀ {inits : List (String × Expr)},
    e ∈ inits.map (·.2) → e.size ≤ sizeInits inits
  | (_, x) :: inits, h => by
      rcases List.mem_cons.mp h with rfl | h
      · exact Nat.le_add_right _ _
      · exact Nat.le_trans (size_le_sizeInits h) (Nat.le_add_left _ _)

theorem size_lt_of_child {e c : Expr} (h : c ∈ e.children) : c.size < e.size := by
  cases e with
  | param | const | default => simp [children] at h
  | member | unary | typeIs | lambda =>
      simp only [children, List.mem_singleton] at h
      subst h
      simp [size]
  | binary op l r conversion t =>
      cases conversion <;>
        simp only [children, Option.toList, List.mem_cons, List.not_mem_nil, or_false] at h <;>
        simp only [size] <;> grind
  | cond a b d t =>
      simp only [children, List.mem_cons, List.not_mem_nil, or_false] at h
      simp only [size]
      grind
  | call target m args =>
      cases target with
      | none =>
          have : c.size ≤ sizeAll args := size_le_sizeAll (by simpa [children] using h)
          simp only [size]
          omega
      | some target =>
          simp only [children, Option.toList, List.cons_append, List.nil_append,
            List.mem_cons] at h
          simp only [size]
          rcases h with rfl | h
          · omega
          · have := size_le_sizeAll h
            omega
  | new t inits =>
      have := size_le_sizeInits h
      simp only [size]
      omega
  | newArray t items =>
      have : c.size ≤ sizeAll items := size_le_sizeAll h
      simp only [size]
      omega
  | invoke f args t =>
      simp only [children, List.mem_cons] at h
      simp only [size]
      rcases h with rfl | h
      · omega
      · have := size_le_sizeAll h
        omega

/-- A property that every expression has as soon as its children have it. -/
theorem induction_children {P : Expr → Prop} (step : ∀ e, (∀ c ∈ e.children, P c) → P e)
    (e : Expr) : P e :=
  step e fun c _ => induction_children step c
termination_by e.size
decreasing_by exact size_lt_of_child ‹_›

/-- Every expression has one of these shapes; the optional parts are told apart. -/
@[elab_as_elim]
theorem shapes {P : Expr → Prop} (e : Expr)
    (param : ∀ p, P (.param p)) (const : ∀ v t, P (.const v t)) (member : ∀ e m, P (.member e m))
    (lambda : ∀ ps body t, P (.lambda ps body t)) (unary : ∀ op e t, P (.unary op e t))
    (binary : ∀ op l r t, P (.binary op l r none t))
    (coalesce : ∀ op l r c t, P (.binary op l r (some c) t))
    (cond : ∀ c a b t, P (.cond c a b t)) (callStatic : ∀ m args, P (.call none m args))
    (call : ∀ target m args, P (.call (some target) m args))
    (new : ∀ t inits, P (.new t inits)) (newArray : ∀ t items, P (.newArray t items))
    (typeIs : ∀ e tested t, P (.typeIs e tested t)) (invoke : ∀ g args t, P (.invoke g args t))
    (default : ∀ t, P (.default t)) : P e := by
  cases e with
  | binary op l r c t =>
      cases c with
      | none => exact binary op l r t
      | some c => exact coalesce op l r c t
  | call target m args =>
      cases target with
      | none => exact callStatic m args
      | some target => exact call target m args
  | param p => exact param p
  | const v t => exact const v t
  | member e m => exact member e m
  | lambda ps body t => exact lambda ps body t
  | unary op e t => exact unary op e t
  | cond c a b t => exact cond c a b t
  | new t inits => exact new t inits
  | newArray t items => exact newArray t items
  | typeIs e tested t => exact typeIs e tested t
  | invoke g args t => exact invoke g args t
  | default t => exact default t

/-- The nodes of a node are nodes of the expression. -/
theorem nodes_subset_of_mem {e n : Expr} : n ∈ e.nodes → n.nodes ⊆ e.nodes := by
  induction e using induction_children with
  | step e ih =>
      intro hn
      rw [nodes_eq e] at hn
      rcases List.mem_cons.mp hn with rfl | hn
      · exact List.Subset.refl _
      · obtain ⟨c, hc, hn⟩ := List.mem_flatMap.mp hn
        exact List.Subset.trans (ih c hc hn) (nodes_subset_of_child hc)

theorem chainBase_mem_nodes (e : Expr) : e.chainBase ∈ e.nodes := by
  induction e using chainBase.induct with
  | case1 e m ih => exact nodes_subset_of_child (by simp [children]) ih
  | case2 e hmember =>
      rw [chainBase]
      · exact mem_nodes_self e
      · exact hmember

/-! ## Parameters -/

/-- The parameters that a node itself names. -/
def named : Expr → List Parameter
  | .param p => [p]
  | .lambda ps _ _ => ps
  | _ => []

/-- The parameters of all references and lambdas. -/
def parameters (e : Expr) : List Parameter := e.nodes.flatMap named

theorem mem_parameters {e : Expr} {p : Parameter} :
    p ∈ e.parameters ↔ ∃ n ∈ e.nodes, p ∈ n.named := List.mem_flatMap

theorem named_subset_parameters (e : Expr) : e.named ⊆ e.parameters :=
  fun _ hp => mem_parameters.mpr ⟨e, mem_nodes_self e, hp⟩

theorem parameters_subset_of_nodes {e x : Expr} (h : x.nodes ⊆ e.nodes) :
    x.parameters ⊆ e.parameters := by
  intro p hp
  obtain ⟨n, hn, hp⟩ := mem_parameters.mp hp
  exact mem_parameters.mpr ⟨n, h hn, hp⟩

theorem parameters_subset_of_child {e c : Expr} (h : c ∈ e.children) :
    c.parameters ⊆ e.parameters :=
  parameters_subset_of_nodes (nodes_subset_of_child h)

theorem parameters_chainBase (e : Expr) : e.chainBase.parameters ⊆ e.parameters :=
  parameters_subset_of_nodes (nodes_subset_of_mem e.chainBase_mem_nodes)

/-- Different parameters have different numbers. -/
def DistinctNumbers (e : Expr) : Prop :=
  ∀ p ∈ e.parameters, ∀ q ∈ e.parameters, p.id = q.id → p = q

/-! ## Substitution -/

theorem substituteAll_eq (id : Nat) (x : Expr) : ∀ es : List Expr,
    substituteAll id x es = es.map (substitute id x)
  | [] => rfl
  | e :: es => by rw [substituteAll, substituteAll_eq id x es, List.map_cons]

theorem substituteInits_eq (id : Nat) (x : Expr) : ∀ inits : List (String × Expr),
    substituteInits id x inits = inits.map fun i => (i.1, substitute id x i.2)
  | [] => rfl
  | (_, e) :: inits => by rw [substituteInits, substituteInits_eq id x inits, List.map_cons]

theorem children_substitute {id : Nat} {x e : Expr} (he : ∀ p, e ≠ .param p) :
    (substitute id x e).children = e.children.map (substitute id x) := by
  cases e with
  | param p => exact absurd rfl (he p)
  | binary op l r conversion t =>
      cases conversion <;> simp [substitute, children]
  | call target m args =>
      cases target <;> simp [substitute, children, substituteAll_eq]
  | _ => simp [substitute, children, substituteAll_eq, substituteInits_eq]

theorem map_substitute_eq_self {id : Nat} {x : Expr} {es : List Expr}
    (h : ∀ e ∈ es, substitute id x e = e) : es.map (substitute id x) = es := by
  rw [List.map_congr_left h, List.map_id']

/-- Without a reference to the parameter there is nothing to replace. -/
theorem substitute_eq_self {id : Nat} {x : Expr} (e : Expr) :
    (∀ p, .param p ∈ e.nodes → p.id ≠ id) → substitute id x e = e := by
  induction e using induction_children with
  | step e ih =>
      intro h
      have hc : ∀ c ∈ e.children, substitute id x c = c := fun c hc =>
        ih c hc fun p hp => h p (nodes_subset_of_child hc hp)
      cases e with
      | param p => rw [substitute, if_neg (h p (mem_nodes_self _))]
      | const v t => rfl
      | default t => rfl
      | member e m => rw [substitute, hc e (by simp [children])]
      | lambda ps body t => rw [substitute, hc body (by simp [children])]
      | unary op e t => rw [substitute, hc e (by simp [children])]
      | typeIs e tested t => rw [substitute, hc e (by simp [children])]
      | binary op l r conversion t =>
          have hl := hc l (by simp [children])
          have hr := hc r (by simp [children])
          cases conversion with
          | none => rw [substitute, hl, hr]
          | some c => rw [substitute, hl, hr, hc c (by simp [children])]
      | cond a b d t =>
          rw [substitute, hc a (by simp [children]), hc b (by simp [children]),
            hc d (by simp [children])]
      | call target m args =>
          have hargs := map_substitute_eq_self fun a (ha : a ∈ args) =>
            hc a (by simp [children, ha])
          cases target with
          | none => rw [substitute, substituteAll_eq, hargs]
          | some target =>
              rw [substitute, substituteAll_eq, hargs, hc target (by simp [children])]
      | new t inits =>
          have hinits : (inits.map fun i => (i.1, substitute id x i.2)) = inits := by
            refine (List.map_congr_left fun i hi => ?_).trans (List.map_id' inits)
            rw [hc i.2 (List.mem_map_of_mem hi)]
          rw [substitute, substituteInits_eq, hinits]
      | newArray t items =>
          rw [substitute, substituteAll_eq,
            map_substitute_eq_self fun a (ha : a ∈ items) => hc a ha]
      | invoke f args t =>
          rw [substitute, substituteAll_eq, hc f (by simp [children]),
            map_substitute_eq_self fun a (ha : a ∈ args) => hc a (by simp [children, ha])]

/-- Every reference to the parameter `id` has type `t`. -/
def RefersAs (id : Nat) (t : Ty) (e : Expr) : Prop :=
  ∀ p, .param p ∈ e.nodes → p.id = id → p.ty = t

theorem RefersAs.child {id : Nat} {t : Ty} {e c : Expr} (h : RefersAs id t e)
    (hc : c ∈ e.children) : RefersAs id t c :=
  fun p hp => h p (nodes_subset_of_child hc hp)

/-- Putting an expression of the type of a parameter in its place keeps the type. -/
theorem ty_substitute {id : Nat} {x e : Expr} (h : RefersAs id x.ty e) :
    (substitute id x e).ty = e.ty := by
  cases e with
  | param p =>
      by_cases hid : p.id = id
      · simp only [substitute, if_pos hid]
        exact (h p (mem_nodes_self _) hid).symm
      · simp only [substitute, if_neg hid]
  | binary op l r conversion t => cases conversion <;> rfl
  | call target m args => cases target <;> rfl
  | _ => rfl

end Expr

end Recast
