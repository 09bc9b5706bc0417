import Recast.Proofs.OperatorResults
import Recast.Proofs.Substitution

/-! # Inferred methods and their arguments

The type arguments of a method are read off the types of its arguments, and an argument may
be of a type that is merely assignable to what a parameter is bound to already.  That is enough
where the place that it stands at is covariant.  The parameters of a delegate, the arguments of
lists, arrays and the like, and elements that are value types have to be the same, and a
parameter that the method does not have stands for itself.  There the inferred method may refuse
the very arguments that it was inferred from.

- `unifyExactly`, `unifyWidening` — matching that tells the two kinds of places apart.
- `closeByWidening?` — methods closed over what it finds.
- `unifyWidening_sound` — what it finds makes the arguments assignable.
- `unify_complete` — it finds all bindings that do.
- `closeByArguments?_accepts_iff` — an inferred method takes its arguments exactly if it is
  found in this way too.
-/

namespace Recast

namespace Registry

/-! ## §1  Matching with variance -/

section Matching

variable (r : Registry)

mutual

/-- The bindings under which the template is the type, at places that take no other. -/
def unifyExactly : Ty → Ty → TypeBindings → Option TypeBindings
  | .param i, actual, bound =>
    match bound[i]? with
    | none => if actual = .param i then some bound else none
    | some none => some (bound.set i (some actual))
    | some (some t) => if actual = t then some bound else none
  | .seq kind t, .seq kind' a, bound => if kind = kind' then unifyExactly t a bound else none
  | .dictionary k v, .dictionary k' v', bound | .keyValue k v, .keyValue k' v', bound =>
    (unifyExactly k k' bound).bind (unifyExactly v v')
  | .func ps ret, .func ps' ret', bound =>
    (unifyExactlyAll ps ps' bound).bind (unifyExactly ret ret')
  | .expression t, .expression a, bound | .nullable t, .nullable a, bound
  | .array t, .array a, bound => unifyExactly t a bound
  | template, actual, bound => if !r.isOpen template && actual == template then some bound else none

def unifyExactlyAll : List Ty → List Ty → TypeBindings → Option TypeBindings
  | [], [], bound => some bound
  | t :: ts, a :: as, bound => (unifyExactly t a bound).bind (unifyExactlyAll ts as)
  | _, _, _ => none

end

/-- The bindings under which the type is assignable to the template.  What a sequence enumerates
may be narrower, unless it would have to be boxed, and so may what a delegate returns. -/
def unifyWidening : Ty → Ty → TypeBindings → Option TypeBindings
  | .param i, actual, bound =>
    match bound[i]? with
    | none => if r.isAssignable actual (.param i) then some bound else none
    | some none => some (bound.set i (some actual))
    | some (some t) => if r.isAssignable actual t then some bound else none
  | .seq .enumerable t, actual, bound =>
    if !r.isOpen (.seq .enumerable t) then r.unifyClosed (.seq .enumerable t) actual bound
    else match r.element? actual with
      | some e => if r.isValueType e then r.unifyExactly t e bound else unifyWidening t e bound
      | none => none
  | .func ps ret, actual, bound =>
    if !r.isOpen (.func ps ret) then r.unifyClosed (.func ps ret) actual bound
    else match actual with
      | .func ps' ret' => (r.unifyExactlyAll ps ps' bound).bind (unifyWidening ret ret')
      | _ => none
  | template, actual, bound =>
    if !r.isOpen template then r.unifyClosed template actual bound
    else r.unifyExactly template actual bound

def unifyWideningAll : List Ty → List Ty → TypeBindings → Option TypeBindings
  | [], [], bound => some bound
  | t :: ts, a :: as, bound => (r.unifyWidening t a bound).bind (unifyWideningAll ts as)
  | _, _, _ => none

/-- A method closed over what matching with variance finds. -/
def closeByWidening? (d : MethodSig) (argTypes : List Ty) : Option Method := do
  let bound ← r.unifyWideningAll d.params argTypes (List.replicate d.typeParams none)
  let typeArgs ← bound.mapM id
  r.closeMethod? d typeArgs

end Matching

variable {r : Registry} {a : List Ty} {s t u e : Ty} {b b' : TypeBindings}

/-! ## §2  Types without parameters -/

mutual

/-- Arguments are put in for parameters only. -/
theorem Unaltered.substitute_of_closed (hr : r.Unaltered) (a : List Ty) : ∀ {t : Ty},
    r.holds t = true → r.isOpen t = false → r.substitute a t = t
  | .param i, _, hopen => by simp [isOpen, hr (.param i) rfl] at hopen
  | .nullable u, hholds, hopen => by
      obtain ⟨hu, hvalue, hplain⟩ := holds_nullable_iff.mp hholds
      simp only [isOpen, hr (.nullable u) rfl, Bool.not_false, Bool.true_and] at hopen
      simp [substitute, nullable, hr (.nullable u) rfl, hr.substitute_of_closed a hu hopen, hvalue,
        hplain]
  | .inst g ts, hholds, hopen => by
      simp only [holds, isOpen, Bool.and_eq_true] at hholds hopen
      rw [substitute_inst, hr.map_substitute_of_closed a hholds.2 hopen, ite_self]
  | .array u, hholds, hopen => by
      simp only [isOpen, hr (.array u) rfl, Bool.not_false, Bool.true_and] at hopen
      rw [hr.substitute_array, hr.substitute_of_closed a (t := u) hholds hopen]
  | .seq kind u, hholds, hopen => by
      simp only [isOpen, hr (.seq kind u) rfl, Bool.not_false, Bool.true_and] at hopen
      rw [hr.substitute_seq, hr.substitute_of_closed a (t := u) hholds hopen]
  | .expression u, hholds, hopen => by
      simp only [isOpen, hr (.expression u) rfl, Bool.not_false, Bool.true_and] at hopen
      rw [hr.substitute_expression, hr.substitute_of_closed a (t := u) hholds hopen]
  | .dictionary k v, hholds, hopen => by
      simp only [holds, Bool.and_eq_true] at hholds
      simp only [isOpen, hr (.dictionary k v) rfl, Bool.not_false, Bool.true_and,
        Bool.or_eq_false_iff] at hopen
      rw [hr.substitute_dictionary, hr.substitute_of_closed a hholds.1 hopen.1,
        hr.substitute_of_closed a hholds.2 hopen.2]
  | .keyValue k v, hholds, hopen => by
      simp only [holds, Bool.and_eq_true] at hholds
      simp only [isOpen, hr (.keyValue k v) rfl, Bool.not_false, Bool.true_and,
        Bool.or_eq_false_iff] at hopen
      rw [hr.substitute_keyValue, hr.substitute_of_closed a hholds.1 hopen.1,
        hr.substitute_of_closed a hholds.2 hopen.2]
  | .func ps ret, hholds, hopen => by
      simp only [holds, Bool.and_eq_true] at hholds
      simp only [isOpen, hr (.func ps ret) rfl, Bool.not_false, Bool.true_and,
        Bool.or_eq_false_iff] at hopen
      rw [hr.substitute_func, hr.map_substitute_of_closed a hholds.1 hopen.1,
        hr.substitute_of_closed a hholds.2 hopen.2]
  | .anonymous ms, hholds, hopen => by
      simp only [isOpen, hr (.anonymous ms) rfl, Bool.not_false, Bool.true_and] at hopen
      rw [hr.substitute_anonymous, hr.substituteMembers_of_closed a hholds hopen]
  | .object, _, _ | .void, _, _ | .literal _, _, _ | .declared _, _, _ => by simp [substitute]

theorem Unaltered.map_substitute_of_closed (hr : r.Unaltered) (a : List Ty) :
    ∀ {ts : List Ty}, r.holdsAll ts = true → r.isOpenAny ts = false →
      ts.map (r.substitute a) = ts
  | [], _, _ => rfl
  | t :: ts, hholds, hopen => by
      simp only [holdsAll, isOpenAny, Bool.and_eq_true, Bool.or_eq_false_iff] at hholds hopen
      rw [List.map_cons, hr.substitute_of_closed a hholds.1 hopen.1,
        hr.map_substitute_of_closed a hholds.2 hopen.2]

theorem Unaltered.substituteMembers_of_closed (hr : r.Unaltered) (a : List Ty) :
    ∀ {ms : List Member}, r.holdsMembers ms = true → r.isOpenMember ms = false →
      r.substituteMembers a ms = ms
  | [], _, _ => by simp [substituteMembers]
  | ⟨_, t⟩ :: ms, hholds, hopen => by
      simp only [holdsMembers, isOpenMember, Bool.and_eq_true, Bool.or_eq_false_iff]
        at hholds hopen
      rw [substituteMembers, hr.substitute_of_closed a hholds.1 hopen.1,
        hr.substituteMembers_of_closed a hholds.2 hopen.2]

end

mutual

/-- A type without parameters matches itself and binds nothing. -/
theorem Unaltered.unifyExactly_self (hr : r.Unaltered) (b : TypeBindings) : ∀ {t : Ty},
    r.isOpen t = false → r.unifyExactly t t b = some b
  | .param i, hopen => by simp [isOpen, hr (.param i) rfl] at hopen
  | .array u, hopen | .seq _ u, hopen | .expression u, hopen | .nullable u, hopen => by
      rw [isOpen, hr _ rfl] at hopen
      simpa [unifyExactly] using hr.unifyExactly_self b hopen
  | .dictionary k v, hopen | .keyValue k v, hopen => by
      rw [isOpen, hr _ rfl] at hopen
      simp only [Bool.not_false, Bool.true_and, Bool.or_eq_false_iff] at hopen
      simp [unifyExactly, hr.unifyExactly_self b hopen.1, hr.unifyExactly_self b hopen.2]
  | .func ps ret, hopen => by
      rw [isOpen, hr _ rfl] at hopen
      simp only [Bool.not_false, Bool.true_and, Bool.or_eq_false_iff] at hopen
      simp [unifyExactly, hr.unifyExactlyAll_self b hopen.1, hr.unifyExactly_self b hopen.2]
  | .object, hopen | .void, hopen | .literal _, hopen | .declared _, hopen | .inst _ _, hopen
  | .anonymous _, hopen => by simp [unifyExactly, hopen]

theorem Unaltered.unifyExactlyAll_self (hr : r.Unaltered) (b : TypeBindings) : ∀ {ts : List Ty},
    r.isOpenAny ts = false → r.unifyExactlyAll ts ts b = some b
  | [], _ => by simp [unifyExactlyAll]
  | t :: ts, hopen => by
      simp only [isOpenAny, Bool.or_eq_false_iff] at hopen
      simp [unifyExactlyAll, hr.unifyExactly_self b hopen.1, hr.unifyExactlyAll_self b hopen.2]

end

/-! ## §3  Bindings -/

/-- There is an argument for each type parameter, the one that it is bound to if it is bound. -/
def Completes (a : List Ty) (b : TypeBindings) : Prop :=
  a.length = b.length ∧ ∀ (i : Nat) (t : Ty), b[i]? = some (some t) → a[i]? = some t

/-- Arguments that agree with a binding that was added agree with those before, and bind the
parameter to what it was bound to. -/
theorem Completes.of_set {i : Nat} (h : Completes a (b.set i (some s))) (hfree : b[i]? = some none) :
    Completes a b ∧ a[i]? = some s := by
  obtain ⟨hlen, hbound⟩ := h
  rw [List.length_set] at hlen
  obtain ⟨hi, -⟩ := List.getElem?_eq_some_iff.mp hfree
  refine ⟨⟨hlen, fun j t hj => hbound j t ?_⟩, hbound i s (by simp [hi])⟩
  have hne : i ≠ j := by
    rintro rfl
    rw [hfree] at hj
    cases hj
  rw [List.getElem?_set_ne hne, hj]

theorem completes_of_mapM : ∀ {b : TypeBindings} {a : List Ty}, b.mapM id = some a →
    Completes a b
  | [], a, h => by
      cases h
      exact ⟨rfl, fun i t ht => by simp at ht⟩
  | slot :: b, a, h => by
      rw [List.mapM_cons] at h
      obtain ⟨t, ht, h⟩ := Option.bind_eq_some_iff.mp h
      obtain ⟨a', ha, h⟩ := Option.bind_eq_some_iff.mp h
      cases h
      cases ht
      obtain ⟨hlen, hbound⟩ := completes_of_mapM ha
      refine ⟨by simp [hlen], fun i u hu => ?_⟩
      cases i with
      | zero => simpa using hu
      | succ i => simpa using hbound i u (by simpa using hu)

/-- A parameter stands for its argument, and for itself if the method has none at its position. -/
theorem Unaltered.substitute_param (hr : r.Unaltered) (h : Completes a b) (i : Nat) :
    (∀ t, b[i]? = some (some t) → r.substitute a (.param i) = t) ∧
      (b[i]? = none → r.substitute a (.param i) = .param i) := by
  have hparam : r.substitute a (.param i) = a[i]?.getD (.param i) := by
    simp [substitute, hr (.param i) rfl]
  constructor
  · intro t ht
    rw [hparam, h.2 i t ht]
    rfl
  · intro hnone
    have hlen : a.length ≤ i := by rw [h.1]; exact List.getElem?_eq_none_iff.mp hnone
    rw [hparam, List.getElem?_eq_none hlen]
    rfl

/-! ## §4  What matching finds -/

/-- The last clause of matching exactly: a closed template is the type itself. -/
theorem Unaltered.exactly_of_closed (hr : r.Unaltered) (ht : r.holds t = true)
    (h : (if !r.isOpen t && s == t then some b else none) = some b') (ha : Completes a b') :
    Completes a b ∧ s = r.substitute a t := by
  split at h
  · rename_i hcond
    cases h
    simp only [Bool.and_eq_true, Bool.not_eq_true', beq_iff_eq] at hcond
    rw [hr.substitute_of_closed a ht hcond.1]
    exact ⟨ha, hcond.2⟩
  · cases h

mutual

theorem Unaltered.unifyExactly_sound (hr : r.Unaltered) : ∀ {t s : Ty} {b b' : TypeBindings},
    r.holds t = true → r.unifyExactly t s b = some b' → Completes a b' →
      Completes a b ∧ s = r.substitute a t
  | .param i, s, b, b', _, h, ha => by
      rw [unifyExactly] at h
      split at h
      · rename_i hnone
        split at h <;> cases h
        rename_i hs
        exact ⟨ha, hs.trans ((hr.substitute_param ha i).2 hnone).symm⟩
      · rename_i hfree
        cases h
        obtain ⟨hb, hi⟩ := ha.of_set hfree
        exact ⟨hb, by simp [substitute, hr (.param i) rfl, hi]⟩
      · rename_i t hbound
        split at h <;> cases h
        rename_i hs
        exact ⟨ha, hs.trans ((hr.substitute_param ha i).1 t hbound).symm⟩
  | .seq kind u, s, b, b', ht, h, ha => by
      cases s with
      | seq kind' x =>
          rw [unifyExactly] at h
          split at h
          · rename_i hkind
            subst hkind
            obtain ⟨hb, hx⟩ := hr.unifyExactly_sound (t := u) ht h ha
            exact ⟨hb, by rw [hr.substitute_seq, hx]⟩
          · cases h
      | _ => simp [unifyExactly] at h
  | .array u, s, b, b', ht, h, ha => by
      cases s with
      | array x =>
          rw [unifyExactly] at h
          obtain ⟨hb, hx⟩ := hr.unifyExactly_sound (t := u) ht h ha
          exact ⟨hb, by rw [hr.substitute_array, hx]⟩
      | _ => simp [unifyExactly] at h
  | .expression u, s, b, b', ht, h, ha => by
      cases s with
      | expression x =>
          rw [unifyExactly] at h
          obtain ⟨hb, hx⟩ := hr.unifyExactly_sound (t := u) ht h ha
          exact ⟨hb, by rw [hr.substitute_expression, hx]⟩
      | _ => simp [unifyExactly] at h
  | .nullable u, s, b, b', ht, h, ha => by
      cases s with
      | nullable x =>
          rw [unifyExactly] at h
          obtain ⟨hb, hx⟩ := hr.unifyExactly_sound (holds_nullable_iff.mp ht).1 h ha
          exact ⟨hb, by rw [hr.substitute_nullable ht, hx]⟩
      | _ => simp [unifyExactly] at h
  | .dictionary k v, s, b, b', ht, h, ha => by
      cases s with
      | dictionary k' v' =>
          rw [unifyExactly] at h
          obtain ⟨b₁, hk, hv⟩ := Option.bind_eq_some_iff.mp h
          simp only [holds, Bool.and_eq_true] at ht
          obtain ⟨hb₁, rfl⟩ := hr.unifyExactly_sound ht.2 hv ha
          obtain ⟨hb, rfl⟩ := hr.unifyExactly_sound ht.1 hk hb₁
          exact ⟨hb, (hr.substitute_dictionary a k v).symm⟩
      | _ => simp [unifyExactly] at h
  | .keyValue k v, s, b, b', ht, h, ha => by
      cases s with
      | keyValue k' v' =>
          rw [unifyExactly] at h
          obtain ⟨b₁, hk, hv⟩ := Option.bind_eq_some_iff.mp h
          simp only [holds, Bool.and_eq_true] at ht
          obtain ⟨hb₁, rfl⟩ := hr.unifyExactly_sound ht.2 hv ha
          obtain ⟨hb, rfl⟩ := hr.unifyExactly_sound ht.1 hk hb₁
          exact ⟨hb, (hr.substitute_keyValue a k v).symm⟩
      | _ => simp [unifyExactly] at h
  | .func ps ret, s, b, b', ht, h, ha => by
      cases s with
      | func ps' ret' =>
          rw [unifyExactly] at h
          obtain ⟨b₁, hps, hret⟩ := Option.bind_eq_some_iff.mp h
          simp only [holds, Bool.and_eq_true] at ht
          obtain ⟨hb₁, rfl⟩ := hr.unifyExactly_sound ht.2 hret ha
          obtain ⟨hb, rfl⟩ := hr.unifyExactlyAll_sound ht.1 hps hb₁
          exact ⟨hb, (hr.substitute_func a ps ret).symm⟩
      | _ => simp [unifyExactly] at h
  | .object, s, b, b', ht, h, ha | .void, s, b, b', ht, h, ha | .literal _, s, b, b', ht, h, ha
  | .declared _, s, b, b', ht, h, ha | .inst _ _, s, b, b', ht, h, ha
  | .anonymous _, s, b, b', ht, h, ha =>
      hr.exactly_of_closed ht (by simpa [unifyExactly] using h) ha

theorem Unaltered.unifyExactlyAll_sound (hr : r.Unaltered) : ∀ {ts ss : List Ty}
    {b b' : TypeBindings}, r.holdsAll ts = true → r.unifyExactlyAll ts ss b = some b' →
      Completes a b' → Completes a b ∧ ss = ts.map (r.substitute a)
  | [], [], b, b', _, h, ha => by
      rw [unifyExactlyAll] at h
      cases h
      exact ⟨ha, rfl⟩
  | t :: ts, s :: ss, b, b', ht, h, ha => by
      rw [unifyExactlyAll] at h
      obtain ⟨b₁, hhead, htail⟩ := Option.bind_eq_some_iff.mp h
      simp only [holdsAll, Bool.and_eq_true] at ht
      obtain ⟨hb₁, rfl⟩ := hr.unifyExactlyAll_sound ht.2 htail ha
      obtain ⟨hb, rfl⟩ := hr.unifyExactly_sound ht.1 hhead hb₁
      exact ⟨hb, rfl⟩
  | [], _ :: _, _, _, _, h, _ | _ :: _, [], _, _, _, h, _ => by simp [unifyExactlyAll] at h

end

/-! ### Assignable types that are built -/

section Built

variable (hr : r.Unaltered)

include hr

theorem Unaltered.isAssignable_enumerable (hs : r.element? s = some e) :
    r.isAssignable s (.seq .enumerable u) = true ↔
      e = u ∨ r.isValueType e = false ∧ r.isAssignable e u = true := by
  have hself : s = .seq .enumerable u → e = u := by
    rintro rfl
    simpa [element?, hr (.seq .enumerable u) rfl] using hs.symm
  simp only [isAssignable, hr (.seq .enumerable u) rfl, hs, Bool.or_eq_true, Bool.and_eq_true,
    beq_iff_eq, Bool.not_eq_true', Bool.false_eq_true, if_false]
  exact or_iff_right_of_imp fun heq => .inl (hself heq)

theorem Unaltered.isAssignable_func {ps ps' : List Ty} {ret ret' : Ty} :
    r.isAssignable (.func ps' ret') (.func ps ret) = true ↔
      ps' = ps ∧ r.isAssignable ret' ret = true := by
  have hself : ps' = ps ∧ ret' = ret → ps' = ps ∧ r.isAssignable ret' ret = true := by
    rintro ⟨rfl, rfl⟩
    exact ⟨rfl, r.isAssignable_refl _⟩
  simp only [isAssignable, hr (.func ps ret) rfl, hr (.func ps' ret') rfl, Bool.or_eq_true,
    Bool.and_eq_true, beq_iff_eq, Bool.or_self, Bool.false_eq_true, if_false, Ty.func.injEq]
  exact or_iff_right_of_imp hself

theorem Unaltered.isAssignable_nullable (ht : r.underlying? u = none) :
    r.isAssignable (.nullable e) (.nullable u) = true ↔ e = u := by
  have hne : u ≠ .nullable e := by
    rintro rfl
    simp [underlying?, hr (.nullable e) rfl] at ht
  have hrecord : r.isRecord (.nullable e) = false := isRecord_of_shape? (hr _ rfl) rfl
  simp [isAssignable, extends?, hrecord, hne]

end Built

/-- Types that only the same type, or one of their records, is assignable to. -/
def Invariant : Ty → Prop
  | .object | .nullable _ | .seq .enumerable _ | .func _ _ => False
  | _ => True

theorem isAssignable_invariant (ht : Invariant t) (hs : r.isRecord s = false) :
    r.isAssignable s t = true ↔ s = t := by
  cases t with
  | seq kind u =>
      cases kind with
      | enumerable => exact ht.elim
      | _ => simp [isAssignable, extends?, hs]
  | object | nullable _ | func _ _ => exact ht.elim
  | _ => simp [isAssignable, extends?, hs]

/-! ### Matching with variance -/

theorem unifyClosed_eq_some : r.unifyClosed t s b = some b' ↔
    b' = b ∧ r.isOpen t = false ∧ r.isAssignable s t = true := by
  unfold unifyClosed
  split
  · rename_i hcond
    simp only [Bool.and_eq_true, Bool.not_eq_true'] at hcond
    simp [hcond, eq_comm]
  · rename_i hcond
    simp_all

theorem Unaltered.unifyClosed_sound (hr : r.Unaltered) (ht : r.holds t = true)
    (h : r.unifyClosed t s b = some b') (ha : Completes a b') :
    Completes a b ∧ r.isAssignable s (r.substitute a t) = true := by
  obtain ⟨rfl, hopen, hassignable⟩ := unifyClosed_eq_some.mp h
  rw [hr.substitute_of_closed a ht hopen]
  exact ⟨ha, hassignable⟩

/-- The last clause of matching with variance: a template that is closed, or takes the same type
only. -/
theorem Unaltered.widening_of_invariant (hr : r.Unaltered) (ht : r.holds t = true)
    (h : (if !r.isOpen t then r.unifyClosed t s b else r.unifyExactly t s b) = some b')
    (ha : Completes a b') : Completes a b ∧ r.isAssignable s (r.substitute a t) = true := by
  split at h
  · exact hr.unifyClosed_sound ht h ha
  · obtain ⟨hb, rfl⟩ := hr.unifyExactly_sound ht h ha
    exact ⟨hb, r.isAssignable_refl _⟩

/-- The type is assignable to the template with arguments put in that agree with the bindings. -/
theorem Unaltered.unifyWidening_sound (hr : r.Unaltered) : ∀ {t s : Ty} {b b' : TypeBindings},
    r.holds t = true → r.unifyWidening t s b = some b' → Completes a b' →
      Completes a b ∧ r.isAssignable s (r.substitute a t) = true
  | .param i, s, b, b', _, h, ha => by
      rw [unifyWidening] at h
      split at h
      · rename_i hnone
        split at h <;> cases h
        rename_i hs
        exact ⟨ha, by rwa [(hr.substitute_param ha i).2 hnone]⟩
      · rename_i hfree
        cases h
        obtain ⟨hb, hi⟩ := ha.of_set hfree
        exact ⟨hb, by simp [substitute, hr (.param i) rfl, hi]⟩
      · rename_i t hbound
        split at h <;> cases h
        rename_i hs
        exact ⟨ha, by rwa [(hr.substitute_param ha i).1 t hbound]⟩
  | .seq .enumerable u, s, b, b', ht, h, ha => by
      have hput := hr.substitute_seq a .enumerable u
      rw [unifyWidening] at h
      split at h
      · exact hr.unifyClosed_sound ht h ha
      · split at h
        · rename_i e he
          rw [hput, hr.isAssignable_enumerable he]
          split at h
          · obtain ⟨hb, hsame⟩ := hr.unifyExactly_sound (t := u) ht h ha
            exact ⟨hb, .inl hsame⟩
          · rename_i hvalue
            obtain ⟨hb, hwider⟩ := hr.unifyWidening_sound (t := u) ht h ha
            exact ⟨hb, .inr ⟨Bool.eq_false_iff.mpr hvalue, hwider⟩⟩
        · cases h
  | .func ps ret, s, b, b', ht, h, ha => by
      have hput := hr.substitute_func a ps ret
      unfold unifyWidening at h
      split at h
      · exact hr.unifyClosed_sound ht h ha
      · split at h
        · obtain ⟨b₁, hps, hret⟩ := Option.bind_eq_some_iff.mp h
          simp only [holds, Bool.and_eq_true] at ht
          obtain ⟨hb₁, hwider⟩ := hr.unifyWidening_sound ht.2 hret ha
          obtain ⟨hb, hsame⟩ := hr.unifyExactlyAll_sound ht.1 hps hb₁
          rw [hput, hr.isAssignable_func]
          exact ⟨hb, hsame, hwider⟩
        · cases h
  | .seq .list _, s, b, b', ht, h, ha | .seq .queryable _, s, b, b', ht, h, ha
  | .array _, s, b, b', ht, h, ha | .expression _, s, b, b', ht, h, ha
  | .nullable _, s, b, b', ht, h, ha | .dictionary _ _, s, b, b', ht, h, ha
  | .keyValue _ _, s, b, b', ht, h, ha | .object, s, b, b', ht, h, ha | .void, s, b, b', ht, h, ha
  | .literal _, s, b, b', ht, h, ha | .declared _, s, b, b', ht, h, ha
  | .inst _ _, s, b, b', ht, h, ha | .anonymous _, s, b, b', ht, h, ha =>
      hr.widening_of_invariant ht (by simpa only [unifyWidening] using h) ha

theorem Unaltered.unifyWideningAll_sound (hr : r.Unaltered) : ∀ {ts ss : List Ty}
    {b b' : TypeBindings}, r.holdsAll ts = true → r.unifyWideningAll ts ss b = some b' →
      Completes a b' → Completes a b ∧
        List.Forall₂ (fun s t => r.isAssignable s t = true) ss (ts.map (r.substitute a))
  | [], [], b, b', _, h, ha => by
      rw [unifyWideningAll] at h
      cases h
      exact ⟨ha, .nil⟩
  | t :: ts, s :: ss, b, b', ht, h, ha => by
      rw [unifyWideningAll] at h
      obtain ⟨b₁, hhead, htail⟩ := Option.bind_eq_some_iff.mp h
      simp only [holdsAll, Bool.and_eq_true] at ht
      obtain ⟨hb₁, hrest⟩ := hr.unifyWideningAll_sound ht.2 htail ha
      obtain ⟨hb, hfirst⟩ := hr.unifyWidening_sound ht.1 hhead hb₁
      exact ⟨hb, .cons hfirst hrest⟩
  | [], _ :: _, _, _, _, h, _ | _ :: _, [], _, _, _, h, _ => by simp [unifyWideningAll] at h

/-! ## §5  What matching with variance does not miss -/

/-- If the type fits the template, matching with variance ends with the same bindings. -/
structure Refines (r : Registry) (a : List Ty) (t s : Ty) (b b' : TypeBindings) : Prop where
  completes : Completes a b
  exactly : s = r.substitute a t → r.unifyExactly t s b = some b'
  widening : r.isAssignable s (r.substitute a t) = true → r.unifyWidening t s b = some b'

theorem Unaltered.unifyWidening_of_closed (hr : r.Unaltered) (hopen : r.isOpen t = false) :
    r.unifyWidening t s b = r.unifyClosed t s b := by
  cases t with
  | param i => simp [isOpen, hr (.param i) rfl] at hopen
  | seq kind u => cases kind <;> simp [unifyWidening, hopen]
  | func ps ret => unfold unifyWidening; simp [hopen]
  | _ => simp [unifyWidening, hopen]

theorem Unaltered.refines_of_closed (hr : r.Unaltered) (ht : r.holds t = true)
    (h : r.unifyClosed t s b = some b') (ha : Completes a b') : Refines r a t s b b' := by
  obtain ⟨rfl, hopen, hassignable⟩ := unifyClosed_eq_some.mp h
  refine ⟨ha, ?_, fun _ => by rw [hr.unifyWidening_of_closed hopen, h]⟩
  rintro rfl
  rw [hr.substitute_of_closed a ht hopen]
  exact hr.unifyExactly_self _ hopen

section Invariant

variable {x y : Ty} {b₁ : TypeBindings}

/-- Where only the same type fits, the two ways of matching are one. -/
theorem Refines.of_invariant (ht : Invariant (r.substitute a t)) (hs : r.isRecord s = false)
    (hwidening : r.unifyWidening t s b = r.unifyExactly t s b) (hb : Completes a b)
    (h : s = r.substitute a t → r.unifyExactly t s b = some b') : Refines r a t s b b' :=
  ⟨hb, h, fun hassignable => hwidening.trans (h ((isAssignable_invariant ht hs).mp hassignable))⟩

/-- A type with one part, which has to be the same. -/
theorem Refines.of_part {f : Ty → Ty} (hinjective : Function.Injective f)
    (hput : r.substitute a (f u) = f (r.substitute a u)) (hinvariant : Invariant (r.substitute a (f u)))
    (hrecord : r.isRecord (f x) = false)
    (hexactly : r.unifyExactly (f u) (f x) b = r.unifyExactly u x b)
    (hwidening : r.unifyWidening (f u) (f x) b = r.unifyExactly (f u) (f x) b)
    (h : Refines r a u x b b') : Refines r a (f u) (f x) b b' := by
  refine .of_invariant hinvariant hrecord hwidening h.completes fun heq => ?_
  rw [hexactly]
  exact h.exactly (hinjective (heq.trans hput))

/-- A type with two parts, both of which have to be the same. -/
theorem Refines.of_parts {f : Ty → Ty → Ty} (hinjective : Function.Injective2 f)
    (hput : r.substitute a (f t u) = f (r.substitute a t) (r.substitute a u))
    (hinvariant : Invariant (r.substitute a (f t u))) (hrecord : r.isRecord (f x y) = false)
    (hexactly : r.unifyExactly (f t u) (f x y) b = (r.unifyExactly t x b).bind (r.unifyExactly u y))
    (hwidening : r.unifyWidening (f t u) (f x y) b = r.unifyExactly (f t u) (f x y) b)
    (h : Refines r a t x b b₁) (h' : Refines r a u y b₁ b') :
    Refines r a (f t u) (f x y) b b' := by
  refine .of_invariant hinvariant hrecord hwidening h.completes fun heq => ?_
  obtain ⟨hx, hy⟩ := hinjective (heq.trans hput)
  rw [hexactly, h.exactly hx]
  exact h'.exactly hy

end Invariant

theorem Unaltered.refines_param (hr : r.Unaltered) {i : Nat}
    (h : r.unify (.param i) s b = some b') (ha : Completes a b') :
    Refines r a (.param i) s b b' := by
  rw [unify, hr (.param i) rfl] at h
  cases hslot : b[i]? with
  | none =>
      have hsame : b.set i (some s) = b :=
        List.set_eq_of_length_le (List.getElem?_eq_none_iff.mp hslot)
      simp only [hslot, Option.join_none, Bool.false_eq_true, if_false, hsame,
        Option.some.injEq] at h
      subst h
      have hput := (hr.substitute_param ha i).2 hslot
      refine ⟨ha, fun hs => ?_, fun hs => ?_⟩ <;> rw [hput] at hs
      · simp [unifyExactly, hslot, hs]
      · simp [unifyWidening, hslot, hs]
  | some slot =>
      cases slot with
      | none =>
          simp only [hslot, Option.join_some, Bool.false_eq_true, if_false,
            Option.some.injEq] at h
          subst h
          obtain ⟨hb, -⟩ := ha.of_set hslot
          exact ⟨hb, fun _ => by simp [unifyExactly, hslot],
            fun _ => by simp [unifyWidening, hslot]⟩
      | some t =>
          simp only [hslot, Option.join_some, Bool.false_eq_true, if_false] at h
          split at h <;> cases h
          have hput := (hr.substitute_param ha i).1 t hslot
          refine ⟨ha, fun hs => ?_, fun hs => ?_⟩ <;> rw [hput] at hs
          · simp [unifyExactly, hslot, hs]
          · simp [unifyWidening, hslot, hs]

theorem Unaltered.refines_enumerable (hr : r.Unaltered) (hs : r.element? s = some e)
    (h : Refines r a u e b b') (hopen : r.isOpen (.seq .enumerable u) = true) :
    Refines r a (.seq .enumerable u) s b b' := by
  have hput := hr.substitute_seq a .enumerable u
  refine ⟨h.completes, ?_, ?_⟩
  · intro heq
    rw [hput] at heq
    subst heq
    obtain rfl : e = r.substitute a u := by
      simpa [element?, hr (.seq .enumerable _) rfl] using hs.symm
    simpa [unifyExactly] using h.exactly rfl
  · intro hassignable
    rw [hput, hr.isAssignable_enumerable hs] at hassignable
    simp only [unifyWidening, hopen, hs, Bool.not_true, Bool.false_eq_true, if_false]
    cases hvalue : r.isValueType e with
    | true =>
        rcases hassignable with heq | ⟨hfalse, -⟩
        · exact h.exactly heq
        · rw [hvalue] at hfalse
          cases hfalse
    | false =>
        rcases hassignable with rfl | ⟨-, hwider⟩
        · exact h.widening (r.isAssignable_refl _)
        · exact h.widening hwider

/-- How a sequence is matched against an open template of a sequence. -/
theorem Unaltered.unify_seq (hr : r.Unaltered) {kind : SeqKind}
    (hopen : r.isOpen (.seq kind u) = true) (h : r.unify (.seq kind u) s b = some b') :
    ∃ e, r.unify u e b = some b' ∧
      (kind = .enumerable ∧ r.element? s = some e ∨ kind ≠ .enumerable ∧ s = .seq kind e) := by
  simp only [unify, hopen, Bool.not_true, Bool.false_eq_true, if_false] at h
  split at h
  · rename_i e he
    exact ⟨e, h, .inl ⟨rfl, he⟩⟩
  · rename_i kind' e hnot
    split at h
    · rename_i hsame
      simp only [Bool.and_eq_true, decide_eq_true_eq] at hsame
      obtain ⟨rfl, -⟩ := hsame
      refine ⟨e, h, .inr ⟨?_, rfl⟩⟩
      rintro rfl
      exact hnot e rfl (by simp [element?, hr (.seq .enumerable e) rfl])
    · cases h
  · cases h

theorem Unaltered.refines_seq (hr : r.Unaltered) {kind : SeqKind} (hkind : kind ≠ .enumerable)
    (h : Refines r a u e b b') (hopen : r.isOpen (.seq kind u) = true) :
    Refines r a (.seq kind u) (.seq kind e) b b' := by
  have hput := hr.substitute_seq a kind u
  have hinvariant : Invariant (r.substitute a (.seq kind u)) := by
    rw [hput]
    cases kind <;> first | exact absurd rfl hkind | trivial
  refine .of_part (fun _ _ heq => (Ty.seq.inj heq).2) hput hinvariant
    (isRecord_of_shape? (hr _ rfl) rfl) (by simp [unifyExactly]) ?_ h
  cases kind <;> first | exact absurd rfl hkind | simp [unifyWidening, hopen]

mutual

/-- All bindings that make the type assignable to the template are found. -/
theorem Unaltered.unify_complete (hr : r.Unaltered) : ∀ {t s : Ty} {b b' : TypeBindings},
    r.holds t = true → r.unify t s b = some b' → Completes a b' → Refines r a t s b b'
  | .param i, s, b, b', _, h, ha => hr.refines_param h ha
  | .seq kind u, s, b, b', ht, h, ha => by
      cases hopen : r.isOpen (.seq kind u) with
      | false => exact hr.refines_of_closed ht (by simpa [unify, hopen] using h) ha
      | true =>
          obtain ⟨e, hu, ⟨rfl, he⟩ | ⟨hkind, rfl⟩⟩ := hr.unify_seq hopen h
          · exact hr.refines_enumerable he (hr.unify_complete (t := u) ht hu ha) hopen
          · exact hr.refines_seq hkind (hr.unify_complete (t := u) ht hu ha) hopen
  | .array u, s, b, b', ht, h, ha => by
      cases hopen : r.isOpen (.array u) with
      | false => exact hr.refines_of_closed ht (by simpa [unify, hopen] using h) ha
      | true =>
          cases s with
          | array x =>
              simp only [unify, hopen, hr (.array x) rfl, Bool.not_true, Bool.false_eq_true,
                if_false] at h
              have hput := hr.substitute_array a u
              exact .of_part (fun _ _ => Ty.array.inj) hput (by rw [hput]; trivial)
                (isRecord_of_shape? (hr _ rfl) rfl) (by simp [unifyExactly])
                (by simp [unifyWidening, hopen]) (hr.unify_complete (t := u) ht h ha)
          | _ => simp [unify, hopen] at h
  | .expression u, s, b, b', ht, h, ha => by
      cases hopen : r.isOpen (.expression u) with
      | false => exact hr.refines_of_closed ht (by simpa [unify, hopen] using h) ha
      | true =>
          cases s with
          | expression x =>
              simp only [unify, hopen, hr (.expression x) rfl, Bool.not_true, Bool.false_eq_true,
                if_false] at h
              have hput := hr.substitute_expression a u
              exact .of_part (fun _ _ => Ty.expression.inj) hput (by rw [hput]; trivial)
                (isRecord_of_shape? (hr _ rfl) rfl) (by simp [unifyExactly])
                (by simp [unifyWidening, hopen]) (hr.unify_complete (t := u) ht h ha)
          | _ => simp [unify, hopen] at h
  | .nullable u, s, b, b', ht, h, ha => by
      cases hopen : r.isOpen (.nullable u) with
      | false => exact hr.refines_of_closed ht (by simpa [unify, hopen] using h) ha
      | true =>
          cases s with
          | nullable x =>
              simp only [unify, hopen, hr (.nullable x) rfl, Bool.not_true, Bool.false_eq_true,
                if_false] at h
              have hput := hr.substitute_nullable ht a
              obtain ⟨hu, hvalue, hplain⟩ := holds_nullable_iff.mp ht
              have ih := hr.unify_complete hu h ha
              refine ⟨ih.completes, fun heq => ?_, fun hassignable => ?_⟩
              · rw [hput, Ty.nullable.injEq] at heq
                simpa [unifyExactly] using ih.exactly heq
              · rw [hput, hr.isAssignable_nullable (hr.valueType_substitute hvalue hplain a).2]
                  at hassignable
                simpa [unifyWidening, hopen, unifyExactly] using ih.exactly hassignable
          | _ => simp [unify, hopen] at h
  | .dictionary k v, s, b, b', ht, h, ha => by
      cases hopen : r.isOpen (.dictionary k v) with
      | false => exact hr.refines_of_closed ht (by simpa [unify, hopen] using h) ha
      | true =>
          cases s with
          | dictionary k' v' =>
              simp only [unify, hopen, hr (.dictionary k' v') rfl, Bool.not_true,
                Bool.false_eq_true, if_false] at h
              obtain ⟨b₁, hk, hv⟩ := Option.bind_eq_some_iff.mp h
              simp only [holds, Bool.and_eq_true] at ht
              -- the last part comes first: what agrees with all bindings agrees with earlier ones
              have ihv := hr.unify_complete ht.2 hv ha
              have ihk := hr.unify_complete ht.1 hk ihv.completes
              have hput := hr.substitute_dictionary a k v
              exact .of_parts (fun _ _ _ _ => Ty.dictionary.inj) hput (by rw [hput]; trivial)
                (isRecord_of_shape? (hr _ rfl) rfl) (by simp [unifyExactly])
                (by simp [unifyWidening, hopen]) ihk ihv
          | _ => simp [unify, hopen] at h
  | .keyValue k v, s, b, b', ht, h, ha => by
      cases hopen : r.isOpen (.keyValue k v) with
      | false => exact hr.refines_of_closed ht (by simpa [unify, hopen] using h) ha
      | true =>
          cases s with
          | keyValue k' v' =>
              simp only [unify, hopen, hr (.keyValue k' v') rfl, Bool.not_true,
                Bool.false_eq_true, if_false] at h
              obtain ⟨b₁, hk, hv⟩ := Option.bind_eq_some_iff.mp h
              simp only [holds, Bool.and_eq_true] at ht
              have ihv := hr.unify_complete ht.2 hv ha
              have ihk := hr.unify_complete ht.1 hk ihv.completes
              have hput := hr.substitute_keyValue a k v
              exact .of_parts (fun _ _ _ _ => Ty.keyValue.inj) hput (by rw [hput]; trivial)
                (isRecord_of_shape? (hr _ rfl) rfl) (by simp [unifyExactly])
                (by simp [unifyWidening, hopen]) ihk ihv
          | _ => simp [unify, hopen] at h
  | .func ps ret, s, b, b', ht, h, ha => by
      cases hopen : r.isOpen (.func ps ret) with
      | false => exact hr.refines_of_closed ht (by simpa [unify, hopen] using h) ha
      | true =>
          have hput := hr.substitute_func a ps ret
          cases s with
          | func ps' ret' =>
              simp only [unify, hopen, hr (.func ps' ret') rfl, Bool.not_true,
                Bool.false_eq_true, if_false, Bool.false_or, bne_iff_ne, ne_eq] at h
              split at h
              · cases h
              · rename_i hlen
                obtain ⟨b₁, hps, hret⟩ := Option.bind_eq_some_iff.mp h
                simp only [holds, Bool.and_eq_true] at ht
                have ihret := hr.unify_complete ht.2 hret ha
                obtain ⟨hb, ihps, -⟩ := hr.unifyAll_complete ht.1 (not_not.mp hlen) hps
                  ihret.completes
                refine ⟨hb, fun heq => ?_, fun hassignable => ?_⟩
                · rw [hput, Ty.func.injEq] at heq
                  simpa [unifyExactly, ihps heq.1] using ihret.exactly heq.2
                · rw [hput, hr.isAssignable_func] at hassignable
                  simpa [unifyWidening, hopen, ihps hassignable.1]
                    using ihret.widening hassignable.2
          | _ => simp [unify, hopen] at h
  | .object, s, b, b', ht, h, ha | .void, s, b, b', ht, h, ha | .literal _, s, b, b', ht, h, ha
  | .declared _, s, b, b', ht, h, ha | .inst _ _, s, b, b', ht, h, ha
  | .anonymous _, s, b, b', ht, h, ha =>
      hr.refines_of_closed ht (by simpa only [unify] using h) ha

theorem Unaltered.unifyAll_complete (hr : r.Unaltered) : ∀ {ts ss : List Ty}
    {b b' : TypeBindings}, r.holdsAll ts = true → ts.length = ss.length →
      r.unifyAll ts ss b = some b' → Completes a b' →
        Completes a b ∧
          (ss = ts.map (r.substitute a) → r.unifyExactlyAll ts ss b = some b') ∧
          (List.Forall₂ (fun s t => r.isAssignable s t = true) ss (ts.map (r.substitute a)) →
            r.unifyWideningAll ts ss b = some b')
  | [], [], b, b', _, _, h, ha => by
      rw [unifyAll] at h
      · cases h
        exact ⟨ha, fun _ => by simp [unifyExactlyAll], fun _ => by simp [unifyWideningAll]⟩
      · simp
  | t :: ts, s :: ss, b, b', ht, hlen, h, ha => by
      rw [unifyAll] at h
      obtain ⟨b₁, hhead, htail⟩ := Option.bind_eq_some_iff.mp h
      simp only [holdsAll, Bool.and_eq_true] at ht
      obtain ⟨hb₁, hexactly, hwidening⟩ :=
        hr.unifyAll_complete ht.2 (Nat.succ.inj hlen) htail ha
      have ih := hr.unify_complete ht.1 hhead hb₁
      refine ⟨ih.completes, fun heq => ?_, fun hassignable => ?_⟩
      · rw [List.map_cons, List.cons.injEq] at heq
        simpa [unifyExactlyAll, ih.exactly heq.1] using hexactly heq.2
      · rw [List.map_cons, List.forall₂_cons] at hassignable
        simpa [unifyWideningAll, ih.widening hassignable.1] using hwidening hassignable.2

end

/-! ## §6  Inferred methods -/

/-- Each type is assignable to the one at its place. -/
def Accepts (r : Registry) (params ts : List Ty) : Prop :=
  List.Forall₂ (fun s t => r.isAssignable s t = true) ts params

instance (params ts : List Ty) : Decidable (r.Accepts params ts) :=
  inferInstanceAs (Decidable (List.Forall₂ _ _ _))

theorem checkArguments_eq_ok {m : Method} : ∀ {i : Nat} {params : List Ty} {args : List Expr},
    params.length = args.length → (r.checkArguments m i params args = .ok () ↔
      r.Accepts params (args.map (·.ty)))
  | _, [], [], _ => by simp [checkArguments, Accepts]
  | i, p :: params, arg :: args, hlen => by
      have ih := checkArguments_eq_ok (m := m) (i := i + 1) (Nat.succ.inj hlen)
      rw [Accepts, List.map_cons, List.forall₂_cons, checkArguments]
      cases hassignable : r.isAssignable arg.ty p with
      | true =>
          simp only [↓reduceIte, true_and]
          exact ih
      | false => simp

/-- A call is built exactly if the method takes the arguments, on an instance if it needs one. -/
theorem mkCall_eq_ok_iff {target : Option Expr} {m : Method} {args : List Expr}
    (hstatic : m.isStatic ≠ target.isSome) :
    r.mkCall target m args = .ok (.call target m args) ↔ r.Accepts m.params (args.map (·.ty)) := by
  rw [mkCall, if_neg hstatic]
  split
  · rename_i hlen
    refine iff_of_false nofun fun haccepts => hlen ?_
    simpa using haccepts.length_eq.symm
  · rename_i hlen
    rw [← checkArguments_eq_ok (m := m) (i := 0) (not_not.mp hlen), Checked.bind_eq_ok]
    exact ⟨fun ⟨_, hargs, _⟩ => hargs, fun hargs => ⟨(), hargs, rfl⟩⟩

theorem closeByArguments?_eq_some {d : MethodSig} {ts : List Ty} {m : Method}
    (h : r.closeByArguments? d ts = some m) :
    d.params.length = ts.length ∧ ∃ bound typeArgs,
      r.unifyAll d.params ts (List.replicate d.typeParams none) = some bound ∧
        bound.mapM id = some typeArgs ∧ r.closeMethod? d typeArgs = some m := by
  unfold closeByArguments? at h
  split at h
  · rename_i hlen
    obtain ⟨bound, hbound, h⟩ := Option.bind_eq_some_iff.mp h
    obtain ⟨typeArgs, htypeArgs, h⟩ := Option.bind_eq_some_iff.mp h
    exact ⟨hlen.symm, bound, typeArgs, hbound, htypeArgs, h⟩
  · cases h

theorem closeByWidening?_eq_some {d : MethodSig} {ts : List Ty} {m : Method} :
    r.closeByWidening? d ts = some m ↔ ∃ bound typeArgs,
      r.unifyWideningAll d.params ts (List.replicate d.typeParams none) = some bound ∧
        bound.mapM id = some typeArgs ∧ r.closeMethod? d typeArgs = some m := by
  unfold closeByWidening?
  constructor
  · intro h
    obtain ⟨bound, hbound, h⟩ := Option.bind_eq_some_iff.mp h
    obtain ⟨typeArgs, htypeArgs, h⟩ := Option.bind_eq_some_iff.mp h
    exact ⟨bound, typeArgs, hbound, htypeArgs, h⟩
  · rintro ⟨bound, typeArgs, hbound, htypeArgs, h⟩
    simp [hbound, htypeArgs, h]

/-- A method that matching with variance finds takes the arguments. -/
theorem Unaltered.accepts_of_closeByWidening? (hr : r.Unaltered) {d : MethodSig}
    (hd : r.holdsAll d.params = true) {ts : List Ty} {m : Method}
    (h : r.closeByWidening? d ts = some m) : r.Accepts m.params ts := by
  obtain ⟨bound, typeArgs, hbound, htypeArgs, hm⟩ := closeByWidening?_eq_some.mp h
  rw [(closeMethod?_eq_some hm).1]
  exact (hr.unifyWideningAll_sound hd hbound (completes_of_mapM htypeArgs)).2

/-- An inferred method has a parameter for each argument, and it takes the arguments exactly if
matching with variance finds it too. -/
theorem closeByArguments?_accepts_iff (hr : r.Unaltered) {d : MethodSig}
    (hd : r.holdsAll d.params = true) {ts : List Ty} {m : Method}
    (h : r.closeByArguments? d ts = some m) :
    m.params.length = ts.length ∧ (r.Accepts m.params ts ↔ r.closeByWidening? d ts = some m) ∧
      ∀ (target : Option Expr) (args : List Expr), d.isStatic ≠ target.isSome →
        args.map (·.ty) = ts → (r.mkCall target m args = .ok (.call target m args) ↔
          r.closeByWidening? d ts = some m) := by
  obtain ⟨hlen, bound, typeArgs, hbound, htypeArgs, hm⟩ := closeByArguments?_eq_some h
  obtain ⟨hparams, -⟩ := closeMethod?_eq_some hm
  have hiff : r.Accepts m.params ts ↔ r.closeByWidening? d ts = some m := by
    refine ⟨fun haccepts => ?_, hr.accepts_of_closeByWidening? hd⟩
    obtain ⟨-, -, hwidening⟩ :=
      hr.unifyAll_complete hd hlen hbound (completes_of_mapM htypeArgs)
    rw [Accepts, hparams] at haccepts
    exact closeByWidening?_eq_some.mpr ⟨bound, typeArgs, hwidening haccepts, htypeArgs, hm⟩
  refine ⟨by rw [hparams, List.length_map, hlen], hiff, fun target args hstatic hargs => ?_⟩
  have hdefinition : m.definition = d := by
    unfold closeMethod? at hm
    split at hm <;> cases hm
    rfl
  rw [mkCall_eq_ok_iff (by rwa [Method.isStatic, hdefinition]), hargs, hiff]

end Registry

namespace Catalogue

/-- `Contains` of the standard sequence operators. -/
def contains : MethodSig :=
  ⟨"Enumerable", "Contains", true, 1, [.seq .enumerable (.param 0), .param 0], .boolean⟩

/-- `Any` of the standard sequence operators, with a test of the elements. -/
def anyTest : MethodSig :=
  ⟨"Enumerable", "Any", true, 1, [.seq .enumerable (.param 0), .func [.param 0] .boolean], .boolean⟩

end Catalogue

namespace Registry

open Catalogue (contains anyTest)

/-- A dog may be looked for among animals. -/
theorem closeByArguments?_accepts_iff_contains :
    (contains ∈ Catalogue.standard ∧ kennel.Unaltered ∧
      kennel.holdsAll contains.params = true) ∧
    ∃ m, kennel.closeByArguments? contains [.array (.declared 0), .declared 1] = some m ∧
      m.params = [.seq .enumerable (.declared 0), .declared 0] ∧
      kennel.Accepts m.params [.array (.declared 0), .declared 1] := by
  have hr : kennel.Unaltered := fun _ _ => rfl
  have hd : kennel.holdsAll contains.params = true := by decide
  refine ⟨⟨by decide, hr, hd⟩, ⟨contains, [.declared 0],
    [.seq .enumerable (.declared 0), .declared 0], .boolean⟩, by decide, rfl, ?_⟩
  exact (closeByArguments?_accepts_iff hr hd (by decide)).2.1.mpr (by decide)

/-- A test of dogs is no test of animals, a list of numbers is no sequence of objects, a list of
dogs is no list of animals, and a parameter that the method does not have is not bound. -/
theorem closeByArguments?_accepts_fails :
    let own : List Ty → MethodSig := fun params => ⟨"Pound", "Take", true, 1, params, .boolean⟩
    (anyTest ∈ Catalogue.standard ∧ kennel.Unaltered) ∧
      ∀ call ∈ [(anyTest, [.seq .list (.declared 0), .func [.declared 1] .boolean]),
          (own [.param 0, .seq .enumerable (.param 0)], [.object, .seq .list .int32]),
          (own [.param 0, .seq .list (.param 0)], [.declared 0, .seq .list (.declared 1)]),
          (own [.param 0, .param 1], [.int32, .string])],
        ∃ m, kennel.closeByArguments? call.1 call.2 = some m ∧ ¬ kennel.Accepts m.params call.2 := by
  refine ⟨⟨by decide, fun _ _ => rfl⟩, ?_⟩
  simp only [List.forall_mem_cons]
  exact ⟨⟨_, rfl, by decide⟩, ⟨_, rfl, by decide⟩, ⟨_, rfl, by decide⟩, ⟨_, rfl, by decide⟩, nofun⟩

end Registry

end Recast
