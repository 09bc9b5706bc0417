import Recast.Proofs.LexicalScope

/-! # Values under a substitution

When an expression is put in the place of a parameter, the values that are computed
with it are the values computed without it, but for the bodies of the lambdas in
them.  Nothing that is done to values looks into a lambda, save comparing two of them.

- `Value.graft` — the value with the expression put into its lambdas.
- `Value.meets` — comparing two values comes to two lambdas.
- `Value.sameValue_graft`, `operatorValue_graft`, `castValue_graft` and their siblings —
  what is done to grafted values is what was done to the values, grafted.
-/

namespace Recast

namespace Value

/-! ## §1  Grafting -/

mutual

/-- The value with `a` in the place of the parameter `id` in all its lambdas. -/
def graft (id : Nat) (a : Expr) : Value → Value
  | .lambda e => .lambda (.substitute id a e)
  | .record t fields => .record t (graftFields id a fields)
  | .list items => .list (graftAll id a items)
  | v => v

def graftAll (id : Nat) (a : Expr) : List Value → List Value
  | [] => []
  | v :: vs => graft id a v :: graftAll id a vs

def graftFields (id : Nat) (a : Expr) : List (String × Value) → List (String × Value)
  | [] => []
  | (name, v) :: fields => (name, graft id a v) :: graftFields id a fields

end

variable {id : Nat} {a : Expr} {v w : Value}

theorem graftAll_eq (vs : List Value) : graftAll id a vs = vs.map (graft id a) := by
  induction vs with
  | nil => rfl
  | cons v vs ih => rw [graftAll, ih, List.map_cons]

theorem graftFields_eq (fields : List (String × Value)) :
    graftFields id a fields = fields.map fun f => (f.1, graft id a f.2) := by
  induction fields with
  | nil => rfl
  | cons f fields ih => rw [graftFields, ih, List.map_cons]

theorem graft_list {vs : List Value} : (list vs).graft id a = .list (vs.map (graft id a)) := by
  rw [graft, graftAll_eq]

theorem graft_record {t : Ty} {fields : List (String × Value)} :
    (record t fields).graft id a = .record t (fields.map fun f => (f.1, f.2.graft id a)) := by
  rw [graft, graftFields_eq]

/-! Data has no lambda that anything could be put into. -/

mutual

theorem graft_of_isData : ∀ {v : Value}, v.isData = true → v.graft id a = v
  | .lambda _, h => by cases h
  | .record t fields, h => by rw [graft, graftFields_of_isData h]
  | .list items, h => by rw [graft, graftAll_of_isData h]
  | .null, _ | .bool _, _ | .num _, _ | .char _, _ | .str _, _ | .guid _, _ | .dateTime _, _
  | .dateTimeOffset _, _ | .timeSpan _, _ | .enum _, _ => rfl

theorem graftAll_of_isData : ∀ {vs : List Value}, isDataAll vs = true → graftAll id a vs = vs
  | [], _ => rfl
  | v :: vs, h => by
      obtain ⟨hv, hvs⟩ := Bool.and_eq_true _ _ |>.mp h
      rw [graftAll, graft_of_isData hv, graftAll_of_isData hvs]

theorem graftFields_of_isData : ∀ {fields : List (String × Value)}, isDataFields fields = true →
    graftFields id a fields = fields
  | [], _ => rfl
  | (name, v) :: fields, h => by
      obtain ⟨hv, hfields⟩ := Bool.and_eq_true _ _ |>.mp h
      rw [graftFields, graft_of_isData hv, graftFields_of_isData hfields]

end

mutual

theorem isData_graft : ∀ v : Value, (v.graft id a).isData = v.isData
  | .record _ fields => isDataFields_graft fields
  | .list items => isDataAll_graft items
  | .null | .bool _ | .num _ | .char _ | .str _ | .guid _ | .dateTime _ | .dateTimeOffset _
  | .timeSpan _ | .enum _ | .lambda _ => rfl

theorem isDataAll_graft : ∀ vs : List Value, isDataAll (graftAll id a vs) = isDataAll vs
  | [] => rfl
  | v :: vs => by rw [graftAll, isDataAll, isDataAll, isData_graft v, isDataAll_graft vs]

theorem isDataFields_graft : ∀ fields : List (String × Value),
    isDataFields (graftFields id a fields) = isDataFields fields
  | [] => rfl
  | (name, v) :: fields => by
      rw [graftFields, isDataFields, isDataFields, isData_graft v, isDataFields_graft fields]

end

/-! ## §2  Texts and views -/

mutual

theorem text_graft : ∀ v : Value, (v.graft id a).text = v.text
  | .record t fields => by rw [graft, text, text, fieldTexts_graft fields]
  | .list items => by rw [graft, text, text, texts_graft items]
  | .null | .bool _ | .num _ | .char _ | .str _ | .guid _ | .dateTime _ | .dateTimeOffset _
  | .timeSpan _ | .enum _ | .lambda _ => rfl

theorem texts_graft : ∀ vs : List Value, texts (graftAll id a vs) = texts vs
  | [] => rfl
  | v :: vs => by rw [graftAll, texts, texts, text_graft v, texts_graft vs]

theorem fieldTexts_graft : ∀ fields : List (String × Value),
    fieldTexts (graftFields id a fields) = fieldTexts fields
  | [] => rfl
  | (name, v) :: fields => by
      rw [graftFields, fieldTexts, fieldTexts, text_graft v, fieldTexts_graft fields]

end

theorem plain_graft (v : Value) : (v.graft id a).plain = v.plain := by
  cases v with
  | record t fields => exact text_graft (.record t fields)
  | list items => exact text_graft (.list items)
  | _ => rfl

@[simp] theorem isNull_graft (v : Value) : (v.graft id a).isNull = v.isNull := by
  cases v <;> rfl

@[simp] theorem asInt64?_graft (v : Value) : (v.graft id a).asInt64? = v.asInt64? := by
  cases v <;> rfl

theorem asList?_graft (v : Value) :
    (v.graft id a).asList? = v.asList?.map fun items => items.map (graft id a) := by
  cases v with
  | list items => rw [graft_list]; rfl
  | _ => rfl

theorem order?_graft (v w : Value) : (v.graft id a).order? (w.graft id a) = v.order? w := by
  cases v <;> cases w <;> rfl

theorem lookup_graft {name : String} (fields : List (String × Value)) :
    (graftFields id a fields).lookup name = (fields.lookup name).map (graft id a) := by
  induction fields with
  | nil => rfl
  | cons f fields ih =>
      rw [graftFields, List.lookup_cons, List.lookup_cons, ih]
      split <;> rfl

theorem putField_graft {fields : List (String × Value)} {name : String} :
    putField (fields.map fun f => (f.1, f.2.graft id a)) name (v.graft id a) =
      (putField fields name v).map fun f => (f.1, f.2.graft id a) := by
  have hany : (fields.map fun f => (f.1, f.2.graft id a)).any (·.1 == name) =
      fields.any (·.1 == name) := by simp [Function.comp_def]
  unfold putField
  rw [hany]
  split
  · simp only [List.map_map, Function.comp_def]
    refine List.map_congr_left fun f _ => ?_
    split <;> rfl
  · simp

/-! ## §3  Comparison -/

mutual

/-- Comparing the values comes to two lambdas. -/
def meets : Value → Value → Bool
  | .lambda _, .lambda _ => true
  | .record t fs, .record t' gs => t == t' && fs.length == gs.length && meetsFields fs gs
  | .list xs, .list ys => meetsAll xs ys
  | _, _ => false
termination_by structural v => v

/-- Items that differ end the comparison. -/
def meetsAll : List Value → List Value → Bool
  | x :: xs, y :: ys => meets x y || (x == y && meetsAll xs ys)
  | _, _ => false
termination_by structural vs => vs

def meetsFields : List (String × Value) → List (String × Value) → Bool
  | [], _ => false
  | (name, x) :: fs, gs =>
    match gs.lookup name with
    | some y => meets x y || (x == y && meetsFields fs gs)
    | none => false
termination_by structural fields => fields

end

mutual

theorem beq_graft : ∀ {v w : Value}, v.meets w = false →
    (v.graft id a).beq (w.graft id a) = v.beq w
  | .lambda _, w, h => by
      cases w with
      | lambda => cases h
      | _ => rfl
  | .record t fs, w, h => by
      cases w with
      | record t' gs =>
          have hlength : ∀ fields : List (String × Value),
              (graftFields id a fields).length = fields.length := fun fields => by
            rw [graftFields_eq, List.length_map]
          simp only [graft, beq, hlength]
          simp only [meets, Bool.and_eq_false_iff] at h
          rcases h with (h | h) | h
          · simp [h]
          · simp [h]
          · rw [beqFields_graft h]
      | _ => rfl
  | .list xs, w, h => by
      cases w with
      | list ys => exact beqAll_graft h
      | _ => rfl
  | .null, w, _ | .bool _, w, _ | .num _, w, _ | .char _, w, _ | .str _, w, _ | .guid _, w, _
  | .dateTime _, w, _ | .dateTimeOffset _, w, _ | .timeSpan _, w, _ | .enum _, w, _ => by
      cases w <;> rfl

theorem beqAll_graft : ∀ {vs ws : List Value}, meetsAll vs ws = false →
    beqAll (graftAll id a vs) (graftAll id a ws) = beqAll vs ws
  | [], [], _ | [], _ :: _, _ | _ :: _, [], _ => rfl
  | v :: vs, w :: ws, h => by
      obtain ⟨hv, hvs⟩ := Bool.or_eq_false_iff.mp h
      -- past an item that differs, lambdas may meet: the comparison has ended
      rw [graftAll, graftAll, beqAll, beqAll, beq_graft hv]
      rcases Bool.and_eq_false_iff.mp hvs with hdiffer | hvs
      · rw [show v.beq w = false from hdiffer, Bool.false_and, Bool.false_and]
      · rw [beqAll_graft hvs]

theorem beqFields_graft : ∀ {fs gs : List (String × Value)}, meetsFields fs gs = false →
    beqFields (graftFields id a fs) (graftFields id a gs) = beqFields fs gs
  | [], _, _ => rfl
  | (name, v) :: fs, gs, h => by
      rw [graftFields, beqFields, beqFields, lookup_graft]
      rw [meetsFields] at h
      cases hlookup : gs.lookup name with
      | none => rfl
      | some w =>
          rw [hlookup] at h
          obtain ⟨hv, hfs⟩ := Bool.or_eq_false_iff.mp h
          simp only [Option.map_some, beq_graft hv]
          rcases Bool.and_eq_false_iff.mp hfs with hdiffer | hfs
          · rw [show v.beq w = false from hdiffer, Bool.false_and, Bool.false_and]
          · rw [beqFields_graft hfs]

end

/-- Values that come to no two lambdas compare as they did before. -/
theorem sameValue_graft (h : v.meets w = false) :
    (v.graft id a).sameValue (w.graft id a) = v.sameValue w := by
  have hbeq : ((v.graft id a) == (w.graft id a)) = (v == w) := beq_graft h
  cases v with
  | num n => cases w <;> rfl
  | _ => exact hbeq

end Value

open Value

variable {id : Nat} {a : Expr} {v w : Value}

/-! ## §4  Operators -/

/-- Where data comes out, grafting changes nothing. -/
theorem map_graft_of_isData {x : Except EvalError Value} (h : ∀ v, x = .ok v → v.isData = true) :
    x.map (graft id a) = x := by
  cases x with
  | error e => rfl
  | ok v => exact congrArg Except.ok (graft_of_isData (h v rfl))

theorem badOperands_graft {op : BinaryOp} :
    badOperands op (v.graft id a) (w.graft id a) = badOperands op v w := by
  rw [badOperands, badOperands, text_graft, text_graft]

theorem arithmetic?_graft {integral : Bool} {op : BinaryOp} :
    arithmetic? integral op (v.graft id a) (w.graft id a) = arithmetic? integral op v w := by
  cases v <;> cases w <;> rfl

theorem connective_graft {op : BinaryOp} :
    connective op (v.graft id a) (w.graft id a) = connective op v w := by
  have hbad : badOperands op (v.graft id a) (w.graft id a) = badOperands op v w :=
    badOperands_graft
  cases v <;> cases w <;> first | rfl | exact congrArg Except.error hbad

/-- Equality is asked of values that come to no two lambdas; an item of an array may hold some. -/
theorem operatorValue_graft {integral : Bool} {op : BinaryOp}
    (h : op = .equal ∨ op = .notEqual → v.meets w = false) :
    operatorValue integral op (v.graft id a) (w.graft id a) =
      (operatorValue integral op v w).map (graft id a) := by
  cases op with
  | equal => simp only [operatorValue, sameValue_graft (h (.inl rfl)), Except.map, graft]
  | notEqual => simp only [operatorValue, sameValue_graft (h (.inr rfl)), Except.map, graft]
  | lessThan | lessThanOrEqual | greaterThan | greaterThanOrEqual =>
      simp only [operatorValue, isNull_graft, order?_graft, badOperands_graft]
      split
      · rfl
      · split <;> rfl
  | and | or =>
      have hdata : ∀ op, (connective op v w).map (graft id a) = connective op v w := fun op =>
        map_graft_of_isData fun u hu => connective_isData hu
      cases v <;> cases w <;> first | rfl | exact connective_graft.trans (hdata _).symm
  | arrayIndex =>
      simp only [operatorValue, asInt64?_graft, asList?_graft, badOperands_graft]
      cases w.asInt64? with
      | none => rfl
      | some i =>
          cases v.asList? with
          | none => rfl
          | some items =>
              simp only [Option.map_some, List.getElem?_map]
              by_cases hi : i < 0
              · simp only [if_pos hi]
                rfl
              · simp only [if_neg hi]
                cases items[i.toNat]? <;> rfl
  | add | subtract | multiply | divide | modulo | andAlso | orElse | coalesce =>
      simp only [operatorValue, arithmetic?_graft, badOperands_graft]
      cases hresult : arithmetic? integral _ v w with
      | none => rfl
      | some result =>
          refine (map_graft_of_isData fun u hu => ?_).symm
          subst hu
          exact arithmetic?_isData hresult

theorem negation_graft : negation (v.graft id a) = negation v := by
  have hbad : badOperand .not (v.graft id a) = badOperand .not v := by
    rw [badOperand, badOperand, text_graft]
  cases v <;> first | rfl | exact congrArg Except.error hbad

theorem negated_graft : negated (v.graft id a) = negated v := by
  have hbad : badOperand .negate (v.graft id a) = badOperand .negate v := by
    rw [badOperand, badOperand, text_graft]
  cases v <;> first | rfl | exact congrArg Except.error hbad

/-! ## §5  Members, methods and conversions -/

theorem ownMember?_graft {name : String} :
    ownMember? (v.graft id a) name = (ownMember? v name).map (graft id a) := by
  cases v with
  | record t fields => exact lookup_graft fields
  | list items =>
      rw [graft_list]
      simp only [ownMember?, List.length_map]
      split <;> rfl
  | str s =>
      simp only [graft, ownMember?]
      split <;> rfl
  | dateTime t | dateTimeOffset t =>
      simp only [graft, ownMember?]
      unfold dateMember?
      split <;> rfl
  | _ => rfl

theorem valueMember_graft {isNullable : Bool} {name : String} :
    valueMember isNullable (v.graft id a) name =
      (valueMember isNullable v name).map (graft id a) := by
  unfold valueMember
  simp only [isNull_graft, ownMember?_graft, text_graft]
  split
  · rfl
  · split
    · rfl
    · split
      · rfl
      · cases ownMember? v name <;> rfl

theorem textArgument_graft (args : List Value) :
    textArgument (args.map (graft id a)) = textArgument args := by
  cases args with
  | nil => rfl
  | cons v args =>
      have hother : (.error (.typeMismatch "String" (v.graft id a).text) :
          Except EvalError (List Char)) = .error (.typeMismatch "String" v.text) := by
        rw [text_graft]
      cases v <;> first | rfl | exact hother

theorem textMethod_graft {m : Method} {s : String} {args : List Value} :
    textMethod m s (args.map (graft id a)) = (textMethod m s args).map (graft id a) := by
  rw [map_graft_of_isData fun u hu => textMethod_isData hu]
  unfold textMethod
  rw [textArgument_graft]

theorem objectMethod_graft {m : Method} {args : List Value}
    (h : ∀ w ∈ args.head?, m.name = "Equals" → v.meets w = false) :
    objectMethod m (v.graft id a) (args.map (graft id a)) =
      (objectMethod m v args).map (graft id a) := by
  rw [map_graft_of_isData fun u hu => objectMethod_isData hu]
  unfold objectMethod
  cases args with
  | nil => split <;> simp_all [plain_graft]
  | cons w args =>
      have hsame : m.name = "Equals" →
          (v.graft id a).sameValue (w.graft id a) = v.sameValue w :=
        fun hname => sameValue_graft (h w rfl hname)
      split <;> simp_all [plain_graft]

namespace Registry

variable {r : Registry}

theorem isInstance_graft {static tested : Ty} :
    r.isInstance (v.graft id a) static tested = r.isInstance v static tested := by
  cases v <;> rfl

theorem toVariant?_graft {variants : List String} :
    toVariant? variants (v.graft id a) = (toVariant? variants v).map (graft id a) := by
  cases v with
  | enum variant =>
      simp only [graft, toVariant?]
      split <;> rfl
  | num n =>
      simp only [graft, toVariant?]
      split
      · rfl
      · cases variants[n.asInt64.toNat]? <;> rfl
  | _ => rfl

theorem toLiteral?_graft {source : Ty} {l : Literal} :
    r.toLiteral? source l (v.graft id a) = (r.toLiteral? source l v).map (graft id a) := by
  have hscalar : v.isData = true →
      r.toLiteral? source l (v.graft id a) = (r.toLiteral? source l v).map (graft id a) := by
    intro hv
    rw [graft_of_isData hv]
    cases hw : r.toLiteral? source l v with
    | none => rfl
    | some w =>
        rcases toLiteral?_cases hw with hdata | rfl
        · exact congrArg some (graft_of_isData hdata).symm
        · exact congrArg some (graft_of_isData hv).symm
  cases v with
  | record | list | lambda => cases l <;> rfl
  | _ => exact hscalar rfl

/-- A conversion does not look into a lambda. -/
theorem castValue_graft {source target : Ty} :
    r.castValue (v.graft id a) source target = (r.castValue v source target).map (graft id a) := by
  unfold castValue
  simp only [isNull_graft, text_graft, toVariant?_graft, toLiteral?_graft]
  split
  · split <;> rfl
  · cases r.variants? (r.stripNullable target) with
    | some variants => cases hv : toVariant? variants v <;> simp [hv] <;> rfl
    | none =>
        cases r.literal? (r.stripNullable target) with
        | none => rfl
        | some l => cases hv : r.toLiteral? (r.stripNullable source) l v <;> simp [hv] <;> rfl

end Registry
end Recast
