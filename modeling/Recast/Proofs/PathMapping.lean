import Recast.Proofs.EvalAgreement
import Recast.Proofs.PathTyping
import Recast.Proofs.ValueMapping

/-! # Paths and mapped values

A path of model members read from a mapped row gives what the steps on the data
side give on the row itself, mapped: the two interpreters of a configuration, the
one that finds the steps and the one that maps values, agree.

- `Configuration.Meets` — the pairs of types that a path can lead through.
- `Configuration.Keeps` — what is known of the values on the way.
- `followPath_tracks` — every step keeps the data expression, the value that it
  yields and the value that the model path has reached together.
- `Recaster.pathCommutes` — whole paths.
-/

namespace Recast

/-! ## §1  Walking the steps -/

namespace Recaster

variable {w : Recaster}

theorem walk_append : ∀ {steps steps' : List DataStep} {e : Expr},
    w.walk e (steps ++ steps') = w.walk e steps >>= fun a => w.walk a steps'
  | [], _, _ => rfl
  | .members ms :: steps, _, e => by
      rw [List.cons_append, walk, walk]
      exact walk_append
  | .custom lambda :: steps, _, e => by
      rw [List.cons_append, walk, walk]
      cases w.types.betaReduce lambda e with
      | error x => rfl
      | ok a => exact walk_append

/-- Members that join the last step are walked as a step of their own. -/
theorem walk_appendMembers {steps : List DataStep} {ms : List Member} {e : Expr} :
    w.walk e (DataStep.appendMembers steps ms) = w.walk e steps >>= fun a => .ok (a.select ms) := by
  unfold DataStep.appendMembers
  split
  · rename_i hempty
    rw [List.isEmpty_iff.mp hempty]
    cases w.walk e steps <;> rfl
  · split
    · rename_i before hlast
      obtain ⟨front, rfl⟩ := List.getLast?_eq_some_iff.mp hlast
      rw [List.dropLast_concat, walk_append, walk_append]
      cases w.walk e front with
      | error x => rfl
      | ok a => simp [bind, Except.bind, walk, Expr.select]
    · rw [walk_append]
      rfl

theorem walk_appendStep {steps : List DataStep} {step : DataStep} {e : Expr} :
    w.walk e (Configuration.appendStep steps step) = w.walk e steps >>= fun a => w.walk a [step] := by
  cases step with
  | members ms => exact walk_appendMembers
  | custom lambda => exact walk_append

theorem walk_custom {custom e : Expr} {q : Parameter} {body : Expr}
    (h : w.config.types.CustomOver e.ty custom q body) :
    w.walk e [.custom custom] = .ok (Expr.substitute q.id e body) := by
  simp only [walk, Recaster.types, Registry.betaReduce_eq h, bind, Except.bind]

end Recaster

/-! ## §2  Reading chains -/

namespace Registry

variable {r : Registry} {d : Nat} {row : Value}

theorem mkPath_eq_ok : ∀ {path : List String} {e pe : Expr}, r.mkPath e path = .ok pe →
    ∃ ms, r.requireMembers e.ty path = .ok ms ∧ pe = e.select ms
  | [], _, _, h => by
      cases h
      exact ⟨[], rfl, rfl⟩
  | name :: path, e, pe, h => by
      simp only [mkPath, mkMember, Checked.bind_eq_ok, Checked.pure_eq_ok] at h
      obtain ⟨_, ⟨m, hm, rfl⟩, hrest⟩ := h
      obtain ⟨ms, hms, rfl⟩ := mkPath_eq_ok hrest
      refine ⟨m :: ms, ?_, rfl⟩
      simp only [requireMembers, Checked.bind_eq_ok, Checked.pure_eq_ok]
      exact ⟨m, hm, ms, hms, rfl⟩

end Registry

namespace Configuration

variable {c : Configuration} {d : Nat} {row : Value}

/-- Evaluating a selection reads the chain from the value of what it selects from. -/
theorem readChain_of_returns : ∀ {ms : List Member} {e : Expr} {n : Nat} {env env' : Env}
    {v : Value}, Returns (c.types.eval n (e.select ms)) env v env' →
      ∃ k u, Returns (c.types.eval k e) env u env' ∧ c.readChain u e.ty ms = .ok v
  | [], _, n, _, _, v, h => ⟨n, v, h, rfl⟩
  | m :: ms, e, _, _, _, _, h => by
      obtain ⟨k, u, hu, hchain⟩ := @readChain_of_returns ms (.member e m) _ _ _ _ h
      obtain ⟨j, x, -, hx, hread⟩ := Registry.returns_member.mp hu
      refine ⟨j, x, hx, ?_⟩
      simp only [readChain, Checked.bind_eq_ok]
      exact ⟨u, hread, hchain⟩

theorem Yields.select {ms : List Member} {e : Expr} {u v : Value}
    (h : c.types.Yields d row e u) (hv : c.readChain u e.ty ms = .ok v) :
    c.types.Yields d row (e.select ms) v := by
  intro n env x env' henv hx
  obtain ⟨k, y, hy, hchain⟩ := readChain_of_returns hx
  obtain ⟨rfl, rfl⟩ := h henv hy
  exact ⟨Except.ok.inj (hchain.symm.trans hv), rfl⟩

/-- A chain with a missing link yields nothing, and so whatever is asked for. -/
theorem Yields.select_missing {ms : List Member} {e : Expr} {u : Value} {x : EvalError}
    (h : c.types.Yields d row e u) (hx : c.readChain u e.ty ms = .error x) (v : Value) :
    c.types.Yields d row (e.select ms) v := by
  intro n env y env' henv hy
  obtain ⟨k, z, hz, hchain⟩ := readChain_of_returns hy
  obtain ⟨rfl, rfl⟩ := h henv hz
  rw [hx] at hchain
  cases hchain

/-! ## §3  What a path leads through -/

/-- The pairs of data and model types that a path can lead through. -/
inductive Meets (c : Configuration) (data model : Ty) : Ty → Ty → Prop
  | root : Meets c data model data model
  | same (t : Ty) : Meets c data model t t
  | value {s t s' t' : Ty} : Meets c data model s t → c.types.underlying? s = some s' →
      c.types.underlying? t = some t' → Meets c data model s' t'
  | rule {s t : Ty} {map : Mapping} {name : String} {p : MemberRule} : Meets c data model s t →
      s ≠ t → c.mapping? s t = some map → map.ownRule? name = some p →
      (p.isFed && !p.ignored) = true → Meets c data model (p.inputType?.getD p.member.ty) p.member.ty

theorem Meets.beneath {data model s t s' t' : Ty} {u x : Value} (h : c.Meets data model s t)
    (hunder : c.Beneath u s t x s' t') : c.Meets data model s' t' := by
  rcases hunder with rfl | ⟨-, hs, ht⟩
  · exact .same _
  · exact h.value hs ht

/-- Records of one generic definition that are not mapped as a whole are mapped by nothing. -/
def KeepsApart (c : Configuration) (s t : Ty) : Prop :=
  c.sharesFormer t s = true → s ≠ t → c.types.isRecord t = true →
    c.types.isAssignable s t = false ∧ ∀ u, c.mapping? u t = none

/-- Nothing is to be kept apart if what paths lead through is of one type or no instance of a
generic definition. -/
theorem Meets.keepsApart {data model s t : Ty} (hdata : c.types.former? data = none)
    (hrules : ∀ m ∈ c.maps, ∀ p ∈ m.rules, (p.isFed && !p.ignored) = true →
      p.inputType?.getD p.member.ty = p.member.ty ∨
        c.types.former? (p.inputType?.getD p.member.ty) = none)
    (h : c.Meets data model s t) : c.KeepsApart s t := by
  have hcases : s = t ∨ c.types.former? s = none := by
    induction h with
    | root => exact .inr hdata
    | same => exact .inl rfl
    | value _ hs ht ih =>
        rcases ih with rfl | hnone
        · exact .inl (Option.some.inj (hs.symm.trans ht))
        · obtain ⟨rfl, hfresh⟩ := Registry.underlying?_eq_some hs
          simp [Registry.former?, hfresh] at hnone
    | rule _ _ hmap hp hused _ =>
        exact hrules _ (mapping?_mem hmap).1 _ (Mapping.ownRule?_mem hp).1 hused
  intro hshares hne
  have hnone := hcases.resolve_left hne
  simp only [sharesFormer, hnone, beq_iff_eq, Bool.and_eq_true] at hshares
  rw [hshares.1.2] at hshares
  cases hshares.1.1

/-- What holds of null, of whatever is read from a value, and of what custom lambdas make of it. -/
structure Keeps (c : Configuration) (G : Value → Ty → Prop) : Prop where
  null : ∀ t, G .null t
  member : ∀ {v s m u}, G v s → v.isNull = false → c.types.member? s m.name = some m →
    c.readChain v s [m] = .ok u → G u m.ty
  chain : ∀ {map p v u}, map ∈ c.maps → p ∈ map.rules → G v map.source → v.isNull = false →
    c.readChain v map.source p.source = .ok u → G u (Registry.chainEnd map.source p.source)
  custom : ∀ {map p custom q body v}, map ∈ c.maps → p ∈ map.rules → p.custom = some custom →
    c.types.CustomOver map.source custom q body → G v map.source →
    v.isData = true ∧ ∀ u, c.types.apply custom [v] = .ok u → G u body.ty

/-- A custom lambda that can be put in over the root: inner lambdas stand where they are applied
and bind neither its parameter nor the root. -/
structure Splices (r : Registry) (root : Nat) (source : Ty) (custom : Expr) (q : Parameter)
    (body : Expr) : Prop where
  typed : r.CustomOver source custom q body
  plain : body.isFunction = false
  receives : Expr.Receives q.id root source body
  fresh : q.id ≠ root

def SplicesCustoms (c : Configuration) (root : Nat) : Prop :=
  ∀ m ∈ c.maps, ∀ p ∈ m.rules, ∀ custom ∈ p.custom,
    ∃ q body, Splices c.types root m.source custom q body

/-- The expression yields a value that is mapped to the value reached on the model side.  What it
is has to be known only as long as the two types differ. -/
def Tracks (c : Configuration) (G : Value → Ty → Prop) (d : Nat) (row : Value) (n : Nat) (a : Expr)
    (v : Value) (model : Ty) : Prop :=
  ∃ u, c.types.Yields d row a u ∧ (a.ty ≠ model → G u a.ty) ∧ c.valueWithin n u a.ty model = .ok v

section Tracks

variable {G : Value → Ty → Prop} {a : Expr} {n : Nat} {v x : Value} {s t : Ty} {name : String}

/-- Between equal types both sides read the same chain. -/
theorem Tracks.select {ms : List Member} (h : c.Tracks G d row n a v a.ty)
    (hx : c.readChain v a.ty ms = .ok x) :
    c.Tracks G d row n (a.select ms) x (a.select ms).ty := by
  obtain ⟨u, hyields, -, hmapped⟩ := h
  cases n with
  | zero => cases hmapped
  | succ n =>
      rw [valueWithin_self] at hmapped
      cases hmapped
      exact ⟨x, Yields.select hyields hx, fun hne => absurd rfl hne, valueWithin_self⟩

/-- A step between types that are read alike. -/
theorem Tracks.alike (hG : c.Keeps G) (hmaps : c.MapsRecords) {m dm : Member}
    (h : c.Tracks G d row n a v t)
    (halike : (c.sharesFormer t a.ty || (c.types.isLiteral t && c.types.isLiteral a.ty)) = true)
    (hne : a.ty ≠ t) (hapart : c.KeepsApart a.ty t)
    (hm : c.types.member? t name = some m) (hdm : c.types.member? a.ty name = some dm)
    (hx : valueMember (c.types.underlying? t).isSome v name = .ok x) :
    (∃ u y, c.Beneath u a.ty t y dm.ty m.ty) ∧ c.Tracks G d row n (.member a dm) x m.ty := by
  obtain ⟨u, hyields, hkept, hmapped⟩ := h
  obtain ⟨y, hy, hmapped', hunder⟩ :=
    alike_member hmaps halike hne (fun hshares => hapart hshares hne) hm hdm hmapped hx
  obtain rfl := Registry.name_of_member? hdm
  refine ⟨⟨u, y, hunder⟩, y, hyields.member hy, fun hne' => ?_, hmapped'⟩
  rcases hunder with heq | ⟨rfl, hs, -⟩
  · exact absurd heq hne'
  · cases hnull : y.isNull with
    | true =>
        rw [Value.eq_null hnull]
        exact hG.null _
    | false =>
        have hchain : c.readChain y a.ty [dm] = .ok y := by
          simp only [readChain, Checked.bind_eq_ok]
          exact ⟨y, hy, rfl⟩
        exact hG.member (hkept hne) hnull hdm hchain

/-- A step by the source of a rule. -/
theorem Tracks.rule (hG : c.Keeps G) (hmaps : c.MapsRecords) (hincludes : c.NoIncludes)
    {map : Mapping} {p : MemberRule} (h : c.Tracks G d row n a v t) (hne : a.ty ≠ t)
    (hrecord : ∀ u, G u a.ty → u.isNull = false →
      u.asFields?.isSome = true ∨ c.types.isAssignable a.ty t = false)
    (hmap : c.mapping? a.ty t = some map) (hp : map.ownRule? name = some p)
    (hused : (p.isFed && !p.ignored) = true) (hplain : p.custom = none)
    (hx : valueMember (c.types.underlying? t).isSome v name = .ok x) :
    (a.select p.source).ty = p.inputType?.getD p.member.ty ∧
      ∃ k ≤ n, c.Tracks G d row k (a.select p.source) x p.member.ty := by
  obtain ⟨u, hyields, hkept, hmapped⟩ := h
  have hkept := hkept hne
  obtain ⟨hnull, k, raw, rfl, hraw, hmapped'⟩ :=
    valueWithin_field hmaps hincludes hmap hp hused hne (hrecord u hkept) hmapped hx
  obtain ⟨hmem, hsource, -⟩ := mapping?_mem hmap
  obtain ⟨hpmem, -⟩ := Mapping.ownRule?_mem hp
  have hfed : p.isFed = true := (Bool.and_eq_true _ _ ▸ hused).1
  have hty : (a.select p.source).ty = p.inputType?.getD p.member.ty := by
    rw [Registry.ty_select, inputType?_getD a.ty hplain hfed]
  rw [rawValue, hplain] at hraw
  dsimp only at hraw
  refine ⟨hty, k, Nat.le_succ k, raw, ?_, fun _ => ?_, hty ▸ hmapped'⟩
  · split at hraw
    · rename_i hread
      cases hraw
      exact Yields.select_missing hyields hread _
    · cases hraw
    · rename_i hread
      cases hraw
      exact Yields.select hyields hread
  · split at hraw
    · cases hraw
      exact hG.null _
    · cases hraw
    · rename_i hread
      cases hraw
      rw [Registry.ty_select]
      rw [← hsource] at hkept hread ⊢
      exact hG.chain hmem hpmem hkept hnull hread

/-- A step by the custom lambda of a rule. -/
theorem Tracks.custom (hG : c.Keeps G) (hmaps : c.MapsRecords) (hincludes : c.NoIncludes)
    {map : Mapping} {p : MemberRule} {custom body : Expr} {q : Parameter}
    (h : c.Tracks G d row n a v t) (hne : a.ty ≠ t)
    (hrecord : ∀ u, G u a.ty → u.isNull = false →
      u.asFields?.isSome = true ∨ c.types.isAssignable a.ty t = false)
    (hmap : c.mapping? a.ty t = some map) (hp : map.ownRule? name = some p)
    (hused : (p.isFed && !p.ignored) = true) (hcustom : p.custom = some custom)
    (hq : Splices c.types d a.ty custom q body)
    (hx : valueMember (c.types.underlying? t).isSome v name = .ok x) :
    (Expr.substitute q.id a body).ty = p.inputType?.getD p.member.ty ∧
      ∃ k ≤ n, c.Tracks G d row k (Expr.substitute q.id a body) x p.member.ty := by
  obtain ⟨u, hyields, hkept, hmapped⟩ := h
  have hkept := hkept hne
  obtain ⟨-, k, raw, rfl, hraw, hmapped'⟩ :=
    valueWithin_field hmaps hincludes hmap hp hused hne (hrecord u hkept) hmapped hx
  obtain ⟨hmem, hsource, -⟩ := mapping?_mem hmap
  obtain ⟨hpmem, -⟩ := Mapping.ownRule?_mem hp
  obtain ⟨ty, hparts⟩ := hq.typed.parts
  have hty : (Expr.substitute q.id a body).ty = body.ty := Expr.ty_substitute hq.receives.types
  have hinput : p.inputType?.getD p.member.ty = body.ty := by
    simp [MemberRule.inputType?, hcustom, hparts]
  rw [rawValue, hcustom] at hraw
  obtain ⟨_, happly, hpair⟩ := Checked.map_eq_ok.mp hraw
  cases hpair
  obtain ⟨hdata, hmade⟩ := hG.custom hmem hpmem hcustom (hsource ▸ hq.typed) (hsource ▸ hkept)
  refine ⟨hty.trans hinput.symm, k, Nat.le_succ k, raw, ?_, fun _ => ?_, ?_⟩
  · exact hyields.substitute hdata hparts hq.receives hq.plain happly
  · rw [hty]
    exact hmade _ happly
  · rw [hty, ← hinput]
    exact hmapped'

end Tracks

theorem longestPathRule?_of_no_paths {map : Mapping} (hbases : map.bases = [])
    (hpaths : map.pathRules = []) (path : List String) : c.longestPathRule? map path = none := by
  cases h : c.longestPathRule? map path with
  | none => rfl
  | some found =>
      have hmem := longestPathRule?_mem hbases (n := found.1) (p := found.2) h
      simp [hpaths] at hmem

end Configuration

/-! ## §4  Whole paths -/

namespace Recaster

open Recast.Configuration

section Paths

variable {w : Recaster} {G : Value → Ty → Prop} {d : Nat} {row : Value}

/-- What the rules, the values and the pairs of types have to be for a path to commute with the
mapping of values. -/
structure Follows (w : Recaster) (G : Value → Ty → Prop) (root : Nat) (data model : Ty) :
    Prop where
  maps : w.config.MapsRecords
  includes : w.config.NoIncludes
  paths : ∀ m ∈ w.config.maps, m.pathRules = []
  members : w.config.PopulatesMembers
  customs : w.config.SplicesCustoms root
  keeps : w.config.Keeps G
  apart : ∀ s t, w.config.Meets data model s t → w.config.KeepsApart s t
  records : ∀ s t, w.config.Meets data model s t → s ≠ t → (w.config.mapping? s t).isSome = true →
    ∀ u, G u s → u.isNull = false →
      u.asFields?.isSome = true ∨ w.config.types.isAssignable s t = false

variable {a : Expr} {n : Nat} {v x : Value} {t : Ty} {name : String}

/-- The rule that a step goes by is one of the mapping itself, for the member that is asked for. -/
theorem Follows.rule {root model s : Ty} {map : Mapping} {p : MemberRule} {m : Member}
    (hf : w.Follows G d root model) (hmeets : w.config.Meets root model s t) (hne : s ≠ t)
    (hmap : w.config.mapping? s t = some map) (hp : w.config.memberRule? map m.name = some p)
    (hused : (p.isFed && !p.ignored) = true) (hm : w.config.types.member? t m.name = some m) :
    map.ownRule? m.name = some p ∧ p.member = m ∧
      w.config.Meets root model (p.inputType?.getD p.member.ty) p.member.ty ∧
      ∀ u, G u s → u.isNull = false →
        u.asFields?.isSome = true ∨ w.config.types.isAssignable s t = false := by
  obtain ⟨hmem, -, hdestination⟩ := mapping?_mem hmap
  rw [memberRule?_of_no_bases (hf.includes map hmem).1] at hp
  have hthere := hf.members map hmem _ _ hp
  rw [hdestination, hm] at hthere
  exact ⟨hp, (Option.some.inj hthere).symm, .rule hmeets hne hmap hp hused,
    hf.records _ _ hmeets hne (by rw [hmap]; rfl)⟩

/-- A step from where the data expression and the model value have come. -/
theorem Follows.advance {root model : Ty} {limit : String} {rest : List String}
    {A : Advance} {T T' : TypeTable} {m : Member}
    (hf : w.Follows G d root model) (h : w.config.Tracks G d row n a v t)
    (hmeets : w.config.Meets root model a.ty t) (hne : a.ty ≠ t)
    (hA : Returns (w.config.advance limit t a.ty name rest) T A T')
    (hm : w.config.types.requireMember t name = .ok m)
    (hx : valueMember (w.config.types.underlying? t).isSome v m.name = .ok x) :
    A.taken = 0 ∧ A.model = m.ty ∧
      ∃ a', w.walk a [A.step] = .ok a' ∧ A.data = a'.ty ∧ w.config.Meets root model a'.ty m.ty ∧
        ∃ k ≤ n, w.config.Tracks G d row k a' x m.ty := by
  have hmember := Registry.requireMember_eq_ok.mp hm
  obtain rfl := Registry.name_of_member? hmember
  cases returns_advance.mp hA with
  | alike htypes hm' hdm _ =>
      obtain rfl := Option.some.inj (hm'.symm.trans hmember)
      obtain ⟨⟨_, _, hunder⟩, htracks⟩ := h.alike hf.keeps hf.maps (readAlike_iff.mp htypes) hne
        (hf.apart _ _ hmeets) hmember hdm hx
      exact ⟨rfl, rfl, _, rfl, rfl, hmeets.beneath hunder, n, Nat.le_refl n, htracks⟩
  | members _ hmap _ hm' hown hused hcustom _ =>
      obtain rfl := Option.some.inj (hm'.symm.trans hmember)
      obtain ⟨hown, rfl, hmeets', hrecord⟩ := hf.rule hmeets hne hmap hown hused hmember
      obtain ⟨hty, k, hk, htracks⟩ := h.rule hf.keeps hf.maps hf.includes hne hrecord hmap hown
        hused hcustom hx
      exact ⟨rfl, rfl, _, rfl, (Registry.ty_select ..).symm, hty ▸ hmeets', k, hk, htracks⟩
  | custom _ hmap _ hm' hown hused hcustom =>
      obtain rfl := Option.some.inj (hm'.symm.trans hmember)
      obtain ⟨hown, rfl, hmeets', hrecord⟩ := hf.rule hmeets hne hmap hown hused hmember
      obtain ⟨hmem, hsource, -⟩ := mapping?_mem hmap
      obtain ⟨q, body, hq⟩ := hf.customs _ hmem _ (Mapping.ownRule?_mem hown).1 _ hcustom
      rw [hsource] at hq
      obtain ⟨hty, k, hk, htracks⟩ := h.custom hf.keeps hf.maps hf.includes hne hrecord hmap hown
        hused hcustom hq hx
      exact ⟨rfl, rfl, _, walk_custom hq.typed, hty.symm, hty ▸ hmeets', k, hk, htracks⟩
  | path _ hmap hlongest =>
      have hmem := (mapping?_mem hmap).1
      rw [longestPathRule?_of_no_paths (hf.includes _ hmem).1 (hf.paths _ hmem)] at hlongest
      cases hlongest

/-- By induction on the steps that may still be taken: the expression walked so far yields the
value whose image the model path has reached. -/
theorem followPath_tracks {root : Expr} {data model : Ty} {limit : Nat}
    {fullPath : String} (hf : w.Follows G d data model) :
    ∀ {budget n : Nat} {t : Ty} {path : List String} {ms : List Member}
      {steps steps' : List DataStep} {T T' : TypeTable} {a e : Expr} {v x : Value},
      Returns (w.config.followPath limit fullPath budget t a.ty path steps) T steps' T' →
      w.walk root steps = .ok a → w.walk root steps' = .ok e →
      w.config.Meets data model a.ty t → w.config.Tracks G d row n a v t →
      w.config.types.requireMembers t path = .ok ms → w.config.readChain v t ms = .ok x →
        w.config.Meets data model e.ty (Registry.chainEnd t ms) ∧
          ∃ k ≤ n, w.config.Tracks G d row k e x (Registry.chainEnd t ms)
  | _, n, _, [], _, _, _, _, _, _, _, _, _, h, ha, he, hmeets, htracks, hms, hx => by
      rw [Configuration.followPath] at h
      obtain ⟨rfl, -⟩ := returns_pure.mp h
      obtain rfl := Except.ok.inj (ha.symm.trans he)
      cases hms
      cases hx
      exact ⟨hmeets, n, Nat.le_refl n, htracks⟩
  | 0, _, _, _ :: _, _, _, _, _, _, _, _, _, _, h, _, _, _, _, _, _ => absurd h returns_throw
  | budget + 1, n, t, name :: rest, ms, steps, steps', T, T', a, e, v, x, h, ha, he, hmeets,
      htracks, hms, hx => by
      rw [Configuration.followPath] at h
      split at h
      · rename_i heq
        simp only [returns_bind, TableM.returns_ofChecked, returns_pure] at h
        obtain ⟨ms', _, ⟨hms', -⟩, rfl, -⟩ := h
        obtain rfl := Except.ok.inj (hms.symm.trans hms')
        rw [Recaster.walk_appendMembers, ha] at he
        cases he
        rw [heq] at htracks hx ⊢
        rw [← Registry.ty_select]
        exact ⟨.same _, n, Nat.le_refl n, htracks.select hx⟩
      · rename_i hne
        obtain ⟨A, T₁, hA, hrest⟩ := returns_bind.mp h
        simp only [Registry.requireMembers, Checked.bind_eq_ok, Checked.pure_eq_ok] at hms
        obtain ⟨m, hm, ms, hms, rfl⟩ := hms
        simp only [readChain, Checked.bind_eq_ok] at hx
        obtain ⟨y, hy, hx⟩ := hx
        obtain ⟨htaken, hmodel, a', ha', hdata, hmeets', k, hk, htracks'⟩ :=
          hf.advance htracks hmeets (Ne.symm hne) hA hm hy
        rw [htaken, hmodel, hdata, List.drop_zero] at hrest
        have hwalk : w.walk root (appendStep steps A.step) = .ok a' := by
          rw [Recaster.walk_appendStep, ha]
          exact ha'
        obtain ⟨hend, j, hj, htracks''⟩ :=
          followPath_tracks hf hrest hwalk he hmeets' htracks' hms hx
        exact ⟨hend, j, Nat.le_trans hj hk, htracks''⟩

/-- What the steps from the root yield is mapped to what the path reads from the mapped row. -/
theorem Follows.path {data model : Ty} {root : Parameter} {limit : Nat} {path : List String}
    {ms : List Member} {steps : List DataStep} {T T' : TypeTable} {e : Expr}
    (hf : w.Follows G root.id data model) (hroot : root.ty = data) (hrow : G row data)
    (h : Returns (w.config.dataPath model data path limit) T steps T')
    (he : w.walk (.param root) steps = .ok e)
    (hms : w.config.types.requireMembers model path = .ok ms)
    (hv : w.config.valueAs row data model = .ok v) (hx : w.config.readChain v model ms = .ok x) :
    w.config.Meets data model e.ty (Registry.chainEnd model ms) ∧
      ∃ u, w.config.types.Yields root.id row e u ∧ (e.ty ≠ Registry.chainEnd model ms → G u e.ty) ∧
        w.config.valueAs u e.ty (Registry.chainEnd model ms) = .ok x := by
  subst hroot
  have hstart : w.config.Tracks G root.id row Registry.evalDepth (.param root) v model :=
    ⟨row, Registry.yields_param, fun _ => hrow, hv⟩
  obtain ⟨hmeets, k, hk, u, hyields, hkept, hmapped⟩ :=
    followPath_tracks hf (a := .param root) h rfl he .root hstart hms hx
  exact ⟨hmeets, u, hyields, hkept, valueWithin_mono hk hmapped⟩

/-! ## §5  Commutation -/

/-- Whenever the path of the model parameter is found on the side of the data parameter and the
row is mapped, the two expressions give values that the mapping relates. -/
def PathCommutes (w : Recaster) (model data : Parameter) (path : List String) (row : Value) :
    Prop :=
  ∀ {limit steps T T' pe de x v u}, Returns (w.config.dataPath model.ty data.ty path limit) T steps T' →
    w.types.mkPath (.param model) path = .ok pe → w.walk (.param data) steps = .ok de →
    w.config.valueAs row data.ty model.ty = .ok x →
    w.types.apply (Registry.mkLambda [model] pe) [x] = .ok v →
    w.types.apply (Registry.mkLambda [data] de) [row] = .ok u →
      w.config.valueAs u de.ty pe.ty = .ok v

/-- The custom lambda is over the source type, and its inner lambdas bind neither its parameter
nor the root, which is new to it. -/
structure CustomApart (r : Registry) (root : Nat) (source : Ty) (custom : Expr) (q : Parameter)
    (body : Expr) : Prop where
  typed : r.CustomOver source custom q body
  binds : ∀ ps b ty, .lambda ps b ty ∈ body.nodes → ∀ x ∈ ps, x.id ≠ q.id ∧ x.id ≠ root
  refers : ∀ x, .param x ∈ body.nodes → x.id ≠ root
  fresh : q.id ≠ root

/-- Mappings relate record types, populate members of them, take no rules from one another and have
none for whole paths. -/
structure Plain (w : Recaster) (root : Nat) : Prop where
  maps : w.config.MapsRecords
  includes : w.config.NoIncludes
  paths : ∀ m ∈ w.config.maps, m.pathRules = []
  members : w.config.PopulatesMembers
  customs : ∀ m ∈ w.config.maps, ∀ p ∈ m.rules, ∀ custom ∈ p.custom,
    ∃ q body, CustomApart w.config.types root m.source custom q body

/-- A value between two types that a path leads through is mapped by the mapping between them, and
custom lambdas use their inner lambdas where they stand. -/
structure Direct (w : Recaster) (data model : Ty) : Prop where
  apart : ∀ s t, w.config.Meets data model s t → w.config.KeepsApart s t
  narrow : ∀ s t, w.config.Meets data model s t → s ≠ t → (w.config.mapping? s t).isSome = true →
    w.config.types.isAssignable s t = false
  applied : ∀ m ∈ w.config.maps, ∀ p ∈ m.rules, ∀ custom ∈ p.custom, ∀ ps body t,
    custom.lambdaParts? = some (ps, body, t) →
      body.isFunction = false ∧ ∀ n ∈ body.nodes, n.appliesFunctions = true

theorem Plain.splices {root : Nat} {data model : Ty} (hplain : w.Plain root)
    (hdirect : w.Direct data model) : w.config.SplicesCustoms root := by
  intro m hm p hp custom hcustom
  obtain ⟨q, body, h⟩ := hplain.customs m hm p hp custom hcustom
  obtain ⟨t, hparts⟩ := h.typed.parts
  obtain ⟨hfunction, happlies⟩ := hdirect.applied m hm p hp custom hcustom _ body t hparts
  have htypes : Expr.RefersAs q.id m.source body := h.typed.source ▸ h.typed.refers
  exact ⟨q, body, h.typed, hfunction, ⟨happlies, h.binds, h.refers, htypes⟩, h.fresh⟩

/-- A lambda has one reading: its parameters and its body. -/
theorem CustomOver.unique {r : Registry} {s t : Ty} {custom : Expr} {q q' : Parameter}
    {body body' : Expr} (h : r.CustomOver s custom q body) (h' : r.CustomOver t custom q' body') :
    q = q' ∧ body = body' := by
  obtain ⟨ty, hparts⟩ := h.parts
  obtain ⟨ty', hparts'⟩ := h'.parts
  rw [hparts] at hparts'
  simp only [Option.some.injEq, Prod.mk.injEq, List.cons.injEq, and_true] at hparts'
  exact ⟨hparts'.1, hparts'.2.1⟩

theorem readChain_isData {c : Configuration} : ∀ {ms : List Member} {v u : Value} {t : Ty},
    v.isData = true → c.readChain v t ms = .ok u → u.isData = true
  | [], _, _, _, hv, h => by
      cases h
      exact hv
  | m :: ms, _, _, _, hv, h => by
      simp only [readChain, Checked.bind_eq_ok] at h
      obtain ⟨y, hy, hrest⟩ := h
      exact readChain_isData (valueMember_isData hv hy) hrest

theorem Plain.follows {root : Nat} {data model : Ty} (hplain : w.Plain root)
    (hdirect : w.Direct data model) :
    w.Follows (fun v _ => v.isData = true) root data model where
  maps := hplain.maps
  includes := hplain.includes
  paths := hplain.paths
  members := hplain.members
  customs := hplain.splices hdirect
  apart := hdirect.apart
  records s t hmeets hne hmap _ _ _ := .inr (hdirect.narrow s t hmeets hne hmap)
  keeps :=
    { null := fun _ => rfl
      member := fun hv _ _ h => readChain_isData hv h
      chain := fun _ _ hv _ h => readChain_isData hv h
      custom := fun hmem hp hcustom hover hv => by
        obtain ⟨q, body, hq⟩ := hplain.splices hdirect _ hmem _ hp _ hcustom
        obtain ⟨rfl, rfl⟩ := CustomOver.unique hover hq.typed
        obtain ⟨ty, hparts⟩ := hq.typed.parts
        exact ⟨hv, fun u h => Registry.isData_of_apply hv hparts hq.receives hq.fresh hq.plain h⟩ }

/-- Evaluating a path over the parameter of a lambda reads its chain from the argument. -/
theorem readChain_of_apply {r : Configuration} {m : Parameter} {path : List String} {pe : Expr}
    {u : Value} (hpe : r.types.mkPath (.param m) path = .ok pe)
    (h : r.types.apply (Registry.mkLambda [m] pe) [v] = .ok u) :
    ∃ ms, r.types.requireMembers m.ty path = .ok ms ∧ pe.ty = Registry.chainEnd m.ty ms ∧
      r.readChain v m.ty ms = .ok u := by
  obtain ⟨ms, hms, rfl⟩ := Registry.mkPath_eq_ok hpe
  obtain ⟨env, hrun⟩ := Registry.returns_of_apply (q := m) rfl h
  obtain ⟨k, y, hy, hchain⟩ := readChain_of_returns hrun
  obtain ⟨rfl, -⟩ := Registry.yields_param (q := m) Registry.get?_push_self hy
  exact ⟨ms, hms, Registry.ty_select, hchain⟩

/-- Finding a path on the data side commutes with mapping rows, where values between the types on
the way are mapped by the mappings of these types and no lambda is a value. -/
theorem pathCommutes {model data : Parameter} (hplain : w.Plain data.id)
    (hdirect : w.Direct data.ty model.ty) (hrow : row.isData = true) (path : List String) :
    w.PathCommutes model data path row := by
  intro limit steps T T' pe de x v u hsteps hpe hde hx hv hu
  obtain ⟨ms, hms, hty, hchain⟩ := readChain_of_apply hpe hv
  obtain ⟨-, y, hyields, -, hmapped⟩ :=
    (hplain.follows hdirect).path rfl hrow hsteps hde hms hx hchain
  obtain ⟨env, hrun⟩ := Registry.returns_of_apply (q := data) rfl hu
  obtain ⟨rfl, -⟩ := hyields Registry.get?_push_self hrun
  rw [hty]
  exact hmapped

end Paths

/-! ### A line of an order that is read through its buyer -/

namespace Buyers

def buyer : Ty := .declared 0

def order : Ty := .declared 1

def line : Ty := .declared 2

def name : Member := ⟨"Name", .string⟩

def placedBy : Member := ⟨"PlacedBy", buyer⟩

def who : Member := ⟨"Who", .string⟩

def registry : Registry :=
  { declarations := [.record "Buyer" none [name], .record "Order" none [placedBy],
      .record "Line" none [who]] }

/-- `o => o.PlacedBy.Name` -/
def readName : Expr :=
  Registry.mkLambda [⟨0, "o", order⟩]
    (.member (.member (.param ⟨0, "o", order⟩) placedBy) name)

def mapping : Mapping :=
  { source := order, destination := line, rules := [{ member := who, custom := some readName }] }

def recaster : Recaster := { config := ⟨registry, [mapping]⟩, mapper := .keep, options := {} }

def row : Value := .record order [("PlacedBy", .record buyer [("Name", .str "Ann")])]

def modelRoot : Parameter := ⟨1, "m", line⟩

def dataRoot : Parameter := ⟨2, "m", order⟩

theorem plain : recaster.Plain 2 where
  maps := by
    intro m hm
    obtain rfl := List.mem_singleton.mp hm
    exact ⟨rfl, rfl⟩
  includes := by simp [Configuration.NoIncludes, recaster, mapping]
  paths := by simp [recaster, mapping]
  members := by
    intro m hm
    obtain rfl := List.mem_singleton.mp hm
    refine Mapping.populatesMembers_of_rules fun p hp => ?_
    obtain rfl := List.mem_singleton.mp hp
    rfl
  customs := by
    intro m hm p hp custom hcustom
    obtain rfl := List.mem_singleton.mp hm
    obtain rfl := List.mem_singleton.mp hp
    obtain rfl := Option.some.inj hcustom
    refine ⟨⟨0, "o", order⟩, _, ⟨⟨_, rfl⟩, ?_, rfl, ?_⟩, ?_, ?_, ?_⟩
    · intro n hn
      simp only [readName, Registry.mkLambda, Expr.nodes, List.mem_cons, List.not_mem_nil,
        or_false] at hn
      rcases hn with rfl | rfl | rfl | rfl
      · exact .inl rfl
      · rfl
      · rfl
      · trivial
    · simp [Expr.RefersAs, Expr.nodes]
    · simp [Expr.nodes]
    · simp [Expr.nodes]
    · simp

theorem direct : recaster.Direct order line := by
  have hmeets : ∀ s t, recaster.config.Meets order line s t →
      s = order ∧ t = line ∨ s = t := by
    intro s t h
    induction h with
    | root => exact .inl ⟨rfl, rfl⟩
    | same t => exact .inr rfl
    | value _ hs ht ih =>
        rcases ih with ⟨rfl, rfl⟩ | rfl
        · cases hs
        · exact .inr (Option.some.inj (hs.symm.trans ht))
    | rule _ hne hmap hp _ ih =>
        rcases ih with ⟨rfl, rfl⟩ | rfl
        · obtain rfl := List.mem_singleton.mp (mapping?_mem hmap).1
          obtain rfl := List.mem_singleton.mp (Mapping.ownRule?_mem hp).1
          exact .inr rfl
        · exact absurd rfl hne
  refine ⟨fun s t h => ?_, fun s t h hne hmap => ?_, ?_⟩
  · rcases hmeets s t h with ⟨rfl, rfl⟩ | rfl
    · intro hshares
      cases hshares
    · intro _ hne
      exact absurd rfl hne
  · rcases hmeets s t h with ⟨rfl, rfl⟩ | rfl
    · rfl
    · exact absurd rfl hne
  · intro m hm p hp custom hcustom ps body t hparts
    obtain rfl := List.mem_singleton.mp hm
    obtain rfl := List.mem_singleton.mp hp
    obtain rfl := Option.some.inj hcustom
    cases hparts
    exact ⟨rfl, by simp [Expr.nodes, Expr.appliesFunctions, Expr.children, Expr.isFunction]⟩

end Buyers

open Buyers in
theorem pathCommutes_who :
    recaster.config.valueAs (.str "Ann") .string .string = .ok (.str "Ann") :=
  (show recaster.PathCommutes modelRoot dataRoot ["Who"] row from pathCommutes plain direct rfl _)
    (show Returns (recaster.config.dataPath line order ["Who"] 64) {} [.custom readName] {} from rfl)
    rfl rfl rfl rfl rfl

/-! ### Where paths and values part

A row whose own type has a mapping that the two static types do not have; a value that
passes unread where the source extends the destination; a custom lambda that makes a
lambda of the root; a lambda in the row that refers to what is bound where it is used. -/

namespace Boxes

def box (t : Ty) : Ty := .inst 2 [t]

def tag : Ty := .declared 3

def x : Member := ⟨"X", .string⟩

def y : Member := ⟨"Y", .string⟩

/-- `Tag` extends the box of the data side. -/
def registry : Registry :=
  { declarations := [.record "A" none [], .record "B" none [], .generic "Box" 1 none [x, y],
      .record "Tag" (some (box (.declared 0))) []] }

def mapping : Mapping :=
  { source := tag, destination := box (.declared 1),
    rules := [{ member := x, source := [y] }, { member := y, source := [y] }] }

def recaster : Recaster := { config := ⟨registry, [mapping]⟩, mapper := .keep, options := {} }

def row : Value := .record tag [("X", .str "x"), ("Y", .str "y")]

def modelRoot : Parameter := ⟨1, "m", box (.declared 1)⟩

def dataRoot : Parameter := ⟨2, "m", box (.declared 0)⟩

theorem plain : recaster.Plain 2 where
  maps := by
    intro m hm
    obtain rfl := List.mem_singleton.mp hm
    exact ⟨rfl, rfl⟩
  includes := by simp [Configuration.NoIncludes, recaster, mapping]
  paths := by simp [recaster, mapping]
  members := by
    intro m hm
    obtain rfl := List.mem_singleton.mp hm
    refine Mapping.populatesMembers_of_rules fun p hp => ?_
    rcases List.mem_pair.mp hp with rfl | rfl
    · rfl
    · rfl
  customs := by simp [recaster, mapping]

theorem not_pathCommutes : ¬ recaster.PathCommutes modelRoot dataRoot ["X"] row := by
  intro h
  have hsame : recaster.config.valueAs (.str "x") .string .string = .ok (.str "y") :=
    h (show Returns (recaster.config.dataPath modelRoot.ty dataRoot.ty ["X"] 64) {} [.members [x]] {}
      from rfl) rfl rfl rfl rfl rfl
  simp [Configuration.valueAs, Registry.evalDepth, Configuration.valueWithin_self] at hsame

end Boxes

namespace Stamps

def stamp : Ty := .declared 0

def entry : Ty := .declared 1

def log : Ty := .declared 2

def logModel : Ty := .declared 3

def year : Member := ⟨"Year", .int32⟩

def month : Member := ⟨"Month", .int32⟩

def registry : Registry :=
  { declarations := [.record "Stamp" none [year, month], .record "Entry" (some stamp) [],
      .record "Log" none [⟨"At", entry⟩], .record "LogModel" none [⟨"At", stamp⟩]] }

def entryMapping : Mapping :=
  { source := entry, destination := stamp,
    rules := [{ member := year, source := [month] }, { member := month, source := [month] }] }

def logMapping : Mapping :=
  { source := log, destination := logModel,
    rules := [{ member := ⟨"At", stamp⟩, source := [⟨"At", entry⟩] }] }

def recaster : Recaster :=
  { config := ⟨registry, [entryMapping, logMapping]⟩, mapper := .keep, options := {} }

/-- A date in February of the year 1, where an entry is declared. -/
def row : Value :=
  .record log [("At", .dateTime ⟨dayNumber ⟨1, 2, 1⟩ * secondsPerDay, 0⟩)]

def modelRoot : Parameter := ⟨1, "m", logModel⟩

def dataRoot : Parameter := ⟨2, "m", log⟩

theorem plain : recaster.Plain 2 where
  maps := by
    intro m hm
    rcases List.mem_pair.mp hm with rfl | rfl
    · exact ⟨rfl, rfl⟩
    · exact ⟨rfl, rfl⟩
  includes := by simp [Configuration.NoIncludes, recaster, entryMapping, logMapping]
  paths := by simp [recaster, entryMapping, logMapping]
  members := by
    intro m hm
    rcases List.mem_pair.mp hm with rfl | rfl
    · refine Mapping.populatesMembers_of_rules fun p hp => ?_
      rcases List.mem_pair.mp hp with rfl | rfl
      · rfl
      · rfl
    · refine Mapping.populatesMembers_of_rules fun p hp => ?_
      obtain rfl := List.mem_singleton.mp hp
      rfl
  customs := by simp [recaster, entryMapping, logMapping]

theorem not_pathCommutes : ¬ recaster.PathCommutes modelRoot dataRoot ["At", "Year"] row := by
  intro h
  have hsame : recaster.config.valueAs (.int 2) .int32 .int32 = .ok (.int 1) :=
    h (show Returns (recaster.config.dataPath modelRoot.ty dataRoot.ty ["At", "Year"] 64) {}
      [.members [⟨"At", entry⟩, month]] {} from rfl) rfl rfl rfl rfl rfl
  simp [Configuration.valueAs, Registry.evalDepth, Configuration.valueWithin_self, Value.int]
    at hsame

end Stamps

namespace Readers

def entry : Ty := .declared 0

def entryModel : Ty := .declared 1

def text : Member := ⟨"Text", .string⟩

def read : Member := ⟨"Read", .func [.string] .string⟩

def registry : Registry :=
  { declarations := [.record "Entry" none [text], .record "EntryModel" none [read]] }

/-- `i => root.Text` -/
def reader (root : Parameter) : Expr :=
  Registry.mkLambda [⟨9, "i", .string⟩] (.member (.param root) text)

/-- `s => i => s.Text` -/
def makeReader : Expr := Registry.mkLambda [⟨0, "s", entry⟩] (reader ⟨0, "s", entry⟩)

def mapping : Mapping :=
  { source := entry, destination := entryModel,
    rules := [{ member := read, custom := some makeReader }] }

def recaster : Recaster := { config := ⟨registry, [mapping]⟩, mapper := .keep, options := {} }

def row : Value := .record entry [("Text", .str "a")]

def modelRoot : Parameter := ⟨1, "m", entryModel⟩

def dataRoot : Parameter := ⟨2, "m", entry⟩

theorem plain : recaster.Plain 2 where
  maps := by
    intro m hm
    obtain rfl := List.mem_singleton.mp hm
    exact ⟨rfl, rfl⟩
  includes := by simp [Configuration.NoIncludes, recaster, mapping]
  paths := by simp [recaster, mapping]
  members := by
    intro m hm
    obtain rfl := List.mem_singleton.mp hm
    refine Mapping.populatesMembers_of_rules fun p hp => ?_
    obtain rfl := List.mem_singleton.mp hp
    rfl
  customs := by
    intro m hm p hp custom hcustom
    obtain rfl := List.mem_singleton.mp hm
    obtain rfl := List.mem_singleton.mp hp
    obtain rfl := Option.some.inj hcustom
    refine ⟨⟨0, "s", entry⟩, reader ⟨0, "s", entry⟩, ⟨⟨_, rfl⟩, ?_, rfl, ?_⟩, ?_, ?_, ?_⟩
    · intro n hn
      simp only [makeReader, reader, Registry.mkLambda, Expr.nodes, List.mem_cons,
        List.not_mem_nil, or_false] at hn
      rcases hn with rfl | rfl | rfl | rfl
      · exact .inl rfl
      · exact .inl rfl
      · rfl
      · trivial
    · simp [reader, Registry.mkLambda, Expr.RefersAs, Expr.nodes]
    · simp only [reader, Registry.mkLambda, Expr.nodes, List.mem_cons, Expr.lambda.injEq,
        reduceCtorEq, List.not_mem_nil, or_false]
      rintro _ _ _ ⟨rfl, -, -⟩
      simp
    · simp [reader, Registry.mkLambda, Expr.nodes]
    · simp

theorem not_pathCommutes : ¬ recaster.PathCommutes modelRoot dataRoot ["Read"] row := by
  intro h
  have hsame : recaster.config.valueAs (.lambda (reader dataRoot)) read.ty read.ty =
      .ok (.lambda (reader ⟨0, "s", entry⟩)) :=
    h (show Returns (recaster.config.dataPath modelRoot.ty dataRoot.ty ["Read"] 64) {}
      [.custom makeReader] {} from rfl) rfl rfl rfl rfl rfl
  simp [Configuration.valueAs, Registry.evalDepth, Configuration.valueWithin_self, reader,
    Registry.mkLambda, dataRoot] at hsame

end Readers

namespace Makers

def item : Ty := .declared 0

def owner : Ty := .declared 1

def itemModel : Ty := .declared 2

def ownerModel : Ty := .declared 3

def name : Member := ⟨"Name", .string⟩

def make : Member := ⟨"Make", .func [] item⟩

def found : Member := ⟨"Found", .string⟩

def part : Member := ⟨"Part", itemModel⟩

def registry : Registry :=
  { declarations := [.record "Item" none [name], .record "Owner" none [make, name],
      .record "ItemModel" none [found], .record "OwnerModel" none [part]] }

def s : Parameter := ⟨0, "s", owner⟩

def t : Parameter := ⟨1, "t", item⟩

/-- `s => s.Make()` -/
def makePart : Expr := Registry.mkLambda [s] (.invoke (.member (.param s) make) [] item)

/-- `t => (s => t.Name)(b)` for an owner `b` with the name "b". -/
def findName : Expr :=
  Registry.mkLambda [t]
    (.invoke (Registry.mkLambda [s] (.member (.param t) name))
      [.const (.record owner [("Name", .str "b")]) owner] .string)

def ownerMapping : Mapping :=
  { source := owner, destination := ownerModel,
    rules := [{ member := part, custom := some makePart }] }

def itemMapping : Mapping :=
  { source := item, destination := itemModel,
    rules := [{ member := found, custom := some findName }] }

def recaster : Recaster :=
  { config := ⟨registry, [ownerMapping, itemMapping]⟩, mapper := .keep, options := {} }

/-- An owner that makes an item of the name of whatever `s` is bound to. -/
def row : Value :=
  .record owner [("Name", .str "a"),
    ("Make", .lambda (Registry.mkLambda [] (.new item [("Name", .member (.param s) name)])))]

def modelRoot : Parameter := ⟨2, "m", ownerModel⟩

def dataRoot : Parameter := ⟨3, "m", owner⟩

theorem plain : recaster.Plain 3 where
  maps := by
    intro m hm
    rcases List.mem_pair.mp hm with rfl | rfl
    · exact ⟨rfl, rfl⟩
    · exact ⟨rfl, rfl⟩
  includes := by simp [Configuration.NoIncludes, recaster, ownerMapping, itemMapping]
  paths := by simp [recaster, ownerMapping, itemMapping]
  members := by
    intro m hm
    rcases List.mem_pair.mp hm with rfl | rfl
    · refine Mapping.populatesMembers_of_rules fun p hp => ?_
      obtain rfl := List.mem_singleton.mp hp
      rfl
    · refine Mapping.populatesMembers_of_rules fun p hp => ?_
      obtain rfl := List.mem_singleton.mp hp
      rfl
  customs := by
    intro m hm p hp custom hcustom
    rcases List.mem_pair.mp hm with rfl | rfl
    · obtain rfl := List.mem_singleton.mp hp
      obtain rfl := Option.some.inj hcustom
      refine ⟨s, _, ⟨⟨_, rfl⟩, ?_, rfl, ?_⟩, ?_, ?_, ?_⟩
      · intro n hn
        simp only [makePart, Registry.mkLambda, Expr.nodes, Expr.nodesAll, List.append_nil,
          List.mem_cons, List.not_mem_nil, or_false] at hn
        rcases hn with rfl | rfl | rfl | rfl
        · exact .inl rfl
        · rfl
        · rfl
        · trivial
      · simp [Expr.RefersAs, Expr.nodes, Expr.nodesAll]
      · simp [Expr.nodes, Expr.nodesAll]
      · simp [Expr.nodes, Expr.nodesAll, s]
      · simp [s]
    · obtain rfl := List.mem_singleton.mp hp
      obtain rfl := Option.some.inj hcustom
      refine ⟨t, _, ⟨⟨_, rfl⟩, ?_, rfl, ?_⟩, ?_, ?_, ?_⟩
      · intro n hn
        simp only [findName, Registry.mkLambda, Expr.nodes, Expr.nodesAll, List.append_nil,
          List.cons_append, List.nil_append, List.mem_cons, List.not_mem_nil, or_false] at hn
        rcases hn with rfl | rfl | rfl | rfl | rfl | rfl
        · exact .inl rfl
        · rfl
        · exact .inl rfl
        · rfl
        · trivial
        · trivial
      · simp [Registry.mkLambda, Expr.RefersAs, Expr.nodes, Expr.nodesAll]
      · simp only [Registry.mkLambda, Expr.nodes, Expr.nodesAll, List.append_nil,
          List.cons_append, List.nil_append, List.mem_cons, Expr.lambda.injEq, reduceCtorEq,
          List.not_mem_nil, or_false, false_or]
        rintro _ _ _ ⟨rfl, -, -⟩
        simp [s, t]
      · simp [Registry.mkLambda, Expr.nodes, Expr.nodesAll, t]
      · simp [t]

theorem not_pathCommutes : ¬ recaster.PathCommutes modelRoot dataRoot ["Part", "Found"] row := by
  intro h
  have hsame : recaster.config.valueAs (.str "b") .string .string = .ok (.str "a") :=
    h (show Returns (recaster.config.dataPath modelRoot.ty dataRoot.ty ["Part", "Found"] 64) {}
      [.custom makePart, .custom findName] {} from rfl) rfl rfl rfl rfl rfl
  simp [Configuration.valueAs, Registry.evalDepth, Configuration.valueWithin_self] at hsame

end Makers

/-- Without these conditions the two may differ. -/
theorem pathCommutes_fails :
    (Boxes.recaster.Plain 2 ∧
      ¬ Boxes.recaster.PathCommutes Boxes.modelRoot Boxes.dataRoot ["X"] Boxes.row) ∧
    (Stamps.recaster.Plain 2 ∧
      ¬ Stamps.recaster.PathCommutes Stamps.modelRoot Stamps.dataRoot ["At", "Year"] Stamps.row) ∧
    (Readers.recaster.Plain 2 ∧
      ¬ Readers.recaster.PathCommutes Readers.modelRoot Readers.dataRoot ["Read"] Readers.row) ∧
    (Makers.recaster.Plain 3 ∧
      ¬ Makers.recaster.PathCommutes Makers.modelRoot Makers.dataRoot ["Part", "Found"]
        Makers.row) :=
  ⟨⟨Boxes.plain, Boxes.not_pathCommutes⟩, ⟨Stamps.plain, Stamps.not_pathCommutes⟩,
    ⟨Readers.plain, Readers.not_pathCommutes⟩, ⟨Makers.plain, Makers.not_pathCommutes⟩⟩

end Recaster

end Recast
