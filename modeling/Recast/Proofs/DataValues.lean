import Mathlib.Tactic.SplitIfs
import Recast.Eval.Convert
import Recast.Eval.Operator

/-! # Values without lambdas

A value is data when no lambda stands anywhere in it.  Operators, members,
conversions and methods of values make data of data.
-/

namespace Recast

namespace Value

mutual

/-- No lambda stands in the value. -/
def isData : Value → Bool
  | .lambda _ => false
  | .record _ fields => isDataFields fields
  | .list items => isDataAll items
  | _ => true

def isDataAll : List Value → Bool
  | [] => true
  | v :: vs => isData v && isDataAll vs

def isDataFields : List (String × Value) → Bool
  | [] => true
  | (_, v) :: fields => isData v && isDataFields fields

end

/-! ## §1  Lists and records -/

theorem isDataAll_iff : ∀ {vs : List Value}, isDataAll vs = true ↔ ∀ v ∈ vs, v.isData = true
  | [] => by simp [isDataAll]
  | v :: vs => by simp [isDataAll, isDataAll_iff]

theorem isDataFields_iff : ∀ {fields : List (String × Value)},
    isDataFields fields = true ↔ ∀ f ∈ fields, f.2.isData = true
  | [] => by simp [isDataFields]
  | (name, v) :: fields => by simp [isDataFields, isDataFields_iff]

@[simp] theorem isData_list {vs : List Value} :
    (Value.list vs).isData = true ↔ ∀ v ∈ vs, v.isData = true := isDataAll_iff

@[simp] theorem isData_record {t : Ty} {fields : List (String × Value)} :
    (Value.record t fields).isData = true ↔ ∀ f ∈ fields, f.2.isData = true := isDataFields_iff

@[simp] theorem isData_int (n : Int) : (Value.int n).isData = true := rfl

@[simp] theorem isData_float (f : Float) : (Value.float f).isData = true := by
  unfold Value.float
  split <;> rfl

theorem mem_of_lookup {name : String} {v : Value} : ∀ {fields : List (String × Value)},
    fields.lookup name = some v → (name, v) ∈ fields
  | (key, w) :: fields, h => by
      rw [List.lookup_cons] at h
      split at h
      · rename_i heq
        cases h
        rw [eq_of_beq heq]
        exact List.mem_cons_self
      · exact List.mem_cons_of_mem _ (mem_of_lookup h)

theorem mem_putField {fields : List (String × Value)} {name : String} {v : Value}
    {f : String × Value} (h : f ∈ putField fields name v) : f ∈ fields ∨ f = (name, v) := by
  unfold putField at h
  split at h
  · obtain ⟨g, hg, rfl⟩ := List.mem_map.mp h
    split
    · exact .inr rfl
    · exact .inl hg
  · rcases List.mem_append.mp h with h | h
    · exact .inl h
    · exact .inr (List.mem_singleton.mp h)

theorem isData_putField {fields : List (String × Value)} {name : String} {v : Value}
    (hfields : ∀ f ∈ fields, f.2.isData = true) (hv : v.isData = true) :
    ∀ f ∈ putField fields name v, f.2.isData = true := by
  intro f hf
  rcases mem_putField hf with hf | rfl
  · exact hfields f hf
  · exact hv

end Value

/-! ## §2  Operators -/

theorem checked_isData {op : String} {n : Int} {v : Value} (h : checked op n = .ok v) :
    v.isData = true := by
  unfold checked at h
  split at h
  · cases h
    rfl
  · cases h

theorem integerArithmetic_isData {op : BinaryOp} {a b : Int} {v : Value}
    (h : integerArithmetic op a b = .ok v) : v.isData = true := by
  unfold integerArithmetic at h
  split at h
  · exact checked_isData h
  · exact checked_isData h
  · split at h
    · cases h
    · exact checked_isData h
  · split at h
    · cases h
    · exact checked_isData h
  · exact checked_isData h

theorem arithmetic?_isData {integral : Bool} {op : BinaryOp} {a b v : Value}
    (h : arithmetic? integral op a b = some (.ok v)) : v.isData = true := by
  have hpure : ∀ {w : Value}, w.isData = true →
      some (.ok w : Except EvalError Value) = some (.ok v) → v.isData = true := by
    rintro w hw ⟨⟩
    exact hw
  unfold arithmetic? at h
  split at h
  · exact hpure rfl h
  · exact hpure rfl h
  · split_ifs at h
    exact hpure rfl h
  · split_ifs at h
    · exact integerArithmetic_isData (Option.some.inj h)
    · exact hpure (Value.isData_float _) h
  · split_ifs at h
    exact hpure rfl h
  · split_ifs at h
    exact hpure rfl h
  · split_ifs at h
    exact hpure rfl h
  · split_ifs at h
    · exact hpure rfl h
    · exact hpure rfl h
  · cases h

theorem connective_isData {op : BinaryOp} {a b v : Value} (h : connective op a b = .ok v) :
    v.isData = true := by
  unfold connective at h
  split at h <;> cases h <;> rfl

/-- An operator computes data, or reads an item of an array. -/
theorem operatorValue_cases {integral : Bool} {op : BinaryOp} {a b v : Value}
    (h : operatorValue integral op a b = .ok v) :
    v.isData = true ∨ ∃ items, a = .list items ∧ v ∈ items := by
  cases op with
  | equal | notEqual =>
      cases h
      exact .inl rfl
  | lessThan | lessThanOrEqual | greaterThan | greaterThanOrEqual =>
      simp only [operatorValue] at h
      split at h
      · cases h
        exact .inl rfl
      · split at h <;> cases h
        exact .inl rfl
  | and | or =>
      simp only [operatorValue] at h
      split at h
      · cases h
        exact .inl rfl
      · exact .inl (connective_isData h)
  | arrayIndex =>
      simp only [operatorValue] at h
      split at h
      · rename_i i items _ hitems
        split at h
        · rename_i w hw
          cases h
          cases a <;> simp only [Value.asList?, reduceCtorEq, Option.some.injEq] at hitems
          subst hitems
          split_ifs at hw
          exact .inr ⟨_, rfl, List.mem_of_getElem? hw⟩
        · cases h
      · cases h
  | add | subtract | multiply | divide | modulo | andAlso | orElse | coalesce =>
      simp only [operatorValue] at h
      split at h
      · rename_i result hresult
        subst h
        exact .inl (arithmetic?_isData hresult)
      · cases h

theorem operatorValue_isData {integral : Bool} {op : BinaryOp} {a b v : Value}
    (ha : a.isData = true) (h : operatorValue integral op a b = .ok v) : v.isData = true := by
  rcases operatorValue_cases h with hv | ⟨items, rfl, hmem⟩
  · exact hv
  · exact Value.isData_list.mp ha v hmem

theorem negation_isData {v w : Value} (h : negation v = .ok w) : w.isData = true := by
  unfold negation at h
  split at h <;> cases h <;> rfl

theorem negated_isData {v w : Value} (h : negated v = .ok w) : w.isData = true := by
  unfold negated at h
  split at h
  · cases h
    rfl
  · cases h
    rfl
  · split at h
    · exact checked_isData h
    · cases h
      simp
  · cases h

/-! ## §3  Members, methods and conversions -/

/-- A member is computed, or a field of a record. -/
theorem ownMember?_cases {v w : Value} {name : String} (h : ownMember? v name = some w) :
    w.isData = true ∨ ∃ t fields, v = .record t fields ∧ (name, w) ∈ fields := by
  have hdate : ∀ {t : LocalTime}, dateMember? t name = some w → w.isData = true := by
    intro t h
    unfold dateMember? at h
    split at h <;> cases h <;> rfl
  unfold ownMember? at h
  split at h
  · exact .inr ⟨_, _, rfl, Value.mem_of_lookup h⟩
  · split_ifs at h
    cases h
    exact .inl rfl
  · split_ifs at h
    cases h
    exact .inl rfl
  · exact .inl (hdate h)
  · exact .inl (hdate h)
  · cases h

theorem valueMember_cases {isNullable : Bool} {v w : Value} {name : String}
    (h : valueMember isNullable v name = .ok w) :
    w.isData = true ∨ w = v ∨ ∃ t fields, v = .record t fields ∧ (name, w) ∈ fields := by
  unfold valueMember at h
  split_ifs at h
  · cases h
    exact .inl rfl
  · cases h
    exact .inr (.inl rfl)
  · split at h
    · rename_i u hu
      cases h
      exact (ownMember?_cases hu).imp_right .inr
    · cases h

theorem valueMember_isData {isNullable : Bool} {v w : Value} {name : String}
    (hv : v.isData = true) (h : valueMember isNullable v name = .ok w) : w.isData = true := by
  rcases valueMember_cases h with hw | rfl | ⟨t, fields, rfl, hmem⟩
  · exact hw
  · exact hv
  · exact Value.isData_record.mp hv _ hmem

theorem textMethod_isData {m : Method} {s : String} {args : List Value} {v : Value}
    (h : textMethod m s args = .ok v) : v.isData = true := by
  have htest : ∀ {f : List Char → Bool},
      (textArgument args).map (fun t => Value.bool (f t)) = .ok v → v.isData = true := by
    intro f h
    cases htext : textArgument args with
    | error e => simp [htext, Except.map] at h
    | ok t =>
        simp only [htext, Except.map, Except.ok.injEq] at h
        subst h
        rfl
  unfold textMethod at h
  split at h
  · exact htest h
  · exact htest h
  · exact htest h
  · exact htest h
  · cases h
    rfl
  · cases h
    rfl
  · cases h
    rfl
  · cases h
    rfl
  · cases h

theorem objectMethod_isData {m : Method} {v w : Value} {args : List Value}
    (h : objectMethod m v args = .ok w) : w.isData = true := by
  unfold objectMethod at h
  split at h <;> cases h <;> rfl

namespace Registry

variable {r : Registry}

theorem toVariant?_isData {variants : List String} {v w : Value}
    (h : toVariant? variants v = some w) : w.isData = true := by
  unfold toVariant? at h
  split at h
  · split_ifs at h
    cases h
    rfl
  · split_ifs at h
    obtain ⟨_, -, rfl⟩ := Option.map_eq_some_iff.mp h
    rfl
  · cases h

theorem toLiteral?_cases {source : Ty} {l : Literal} {v w : Value}
    (h : r.toLiteral? source l v = some w) : w.isData = true ∨ w = v := by
  unfold toLiteral? at h
  split at h
  · cases h
    exact .inl rfl
  · cases h
    exact .inl rfl
  · obtain ⟨n, -, hn⟩ := Option.bind_eq_some_iff.mp h
    obtain ⟨_, -, rfl⟩ := Option.map_eq_some_iff.mp hn
    exact .inl rfl
  · split_ifs at h
    · obtain ⟨_, -, rfl⟩ := Option.map_eq_some_iff.mp h
      exact .inl rfl
    · obtain ⟨_, -, rfl⟩ := Option.map_eq_some_iff.mp h
      exact .inl rfl
    · cases h
      exact .inr rfl

/-- A conversion computes a scalar or keeps the value. -/
theorem castValue_cases {v w : Value} {source target : Ty}
    (h : r.castValue v source target = .ok w) : w.isData = true ∨ w = v := by
  unfold castValue at h
  dsimp only at h
  split at h
  · split at h <;> cases h
    exact .inl rfl
  · split at h
    · rename_i u hu
      cases h
      split at hu
      · exact .inl (toVariant?_isData hu)
      · split at hu
        · exact toLiteral?_cases hu
        · cases hu
          exact .inr rfl
    · cases h

theorem castValue_isData {v w : Value} {source target : Ty} (hv : v.isData = true)
    (h : r.castValue v source target = .ok w) : w.isData = true := by
  rcases castValue_cases h with hw | rfl
  · exact hw
  · exact hv

theorem defaultOf_isData (t : Ty) : (r.defaultOf t).isData = true := by
  have hliteral : ∀ l, (defaultLiteral l).isData = true := by
    intro l
    unfold defaultLiteral
    split <;> first | rfl | (split <;> simp)
  unfold defaultOf
  split
  · rfl
  · rfl
  · split
    · split
      · rfl
      · exact hliteral _
    · rfl

end Registry

end Recast
