import Mathlib.Data.Prod.Lex
import Mathlib.Data.String.Basic
import Mathlib.Order.OrderDual
import Recast.Value.Basic

/-! # The order of keys

Values of one kind are ordered as the numbers, texts or moments that they stand for, which is a
linear order on each kind.  A null has no place in it, nor have values of another kind.

- `Value.goesBefore` — the order that sorting and extremes go by, upwards or downwards.
- `KeyKind` — the kinds of values that are ordered among themselves.
- `KeyKind.HasAll` — values of one kind, with nulls among them or not.
- `KeyKind.exists_rank` — the values of a kind have ranks in a linear order, and are equal
  if they have the same.
- `KeyKind.Has.goesBefore_eq_false`, `KeyKind.Has.beq` — what follows for values of a kind.
-/

namespace Recast

namespace Value

/-- What the first of two values compares as if it goes before the other. -/
def before (descending : Bool) : Ordering := if descending then .gt else .lt

/-- The value has its place before the other one. -/
def goesBefore (descending : Bool) (v w : Value) : Bool := v.order? w == some (before descending)

theorem goesBefore_null {descending : Bool} {v w : Value} (h : v = .null ∨ w = .null) :
    goesBefore descending v w = false := by
  rcases h with rfl | rfl
  · rfl
  · cases v <;> rfl

end Value

/-- Kinds of values that are ordered among themselves. -/
inductive KeyKind where
  | integer | text | character | boolean | dateTime | dateTimeOffset | timeSpan | guid
  deriving DecidableEq

namespace KeyKind

/-- The value is of the kind.  Integers are signed ones: beyond them the order is that of floats. -/
def Has (kind : KeyKind) (v : Value) : Prop :=
  match kind with
  | integer => ∃ n, inInt64 n = true ∧ v = .int n
  | text => ∃ s, v = .str s
  | character => ∃ c, v = .char c
  | boolean => ∃ b, v = .bool b
  | dateTime => ∃ t, v = .dateTime t
  | dateTimeOffset => ∃ t, v = .dateTimeOffset t
  | timeSpan => ∃ s, v = .timeSpan s
  | guid => ∃ g, v = .guid g

variable {kind : KeyKind} {v w : Value}

theorem has_int {n : Int} : integer.Has (.int n) ↔ inInt64 n = true := by
  simp [Has, Value.int]

/-- Everything but nulls is of the kind. -/
def HasAll (kind : KeyKind) (values : List Value) : Prop :=
  ∀ v ∈ values, v = .null ∨ kind.Has v

theorem HasAll.has {values : List Value} (h : kind.HasAll values) (hmem : v ∈ values)
    (hv : v ≠ .null) : kind.Has v :=
  (h v hmem).resolve_left hv

@[simp] theorem hasAll_nil : kind.HasAll [] := nofun

@[simp] theorem hasAll_cons {values : List Value} :
    kind.HasAll (v :: values) ↔ (v = .null ∨ kind.Has v) ∧ kind.HasAll values :=
  List.forall_mem_cons

/-! ### Ranks -/

/-- The order of moments is that of their seconds, then that of what is over. -/
def moment (t : LocalTime) : Int ×ₗ ℕ := toLex (t.seconds, t.nanos)

/-- The number that an integer or a time span stands for. -/
def amount : Value → Int
  | .num (.int n) => n
  | .timeSpan s => s.nanos
  | _ => 0

/-- The code of a character or an identifier. -/
def code : Value → ℕ
  | .char c => c.toNat
  | .guid g => g.value
  | _ => 0

/-- The moment of a date, whatever the time zone. -/
def instant : Value → Int ×ₗ ℕ
  | .dateTime t => moment t
  | .dateTimeOffset t => moment t.instant
  | _ => moment .first

theorem order_eq_compare_moment (s t : LocalTime) : s.order t = compare (moment s) (moment t) := by
  rw [moment, moment, Prod.Lex.compare_def]
  rfl

theorem moment_injective {s t : LocalTime} (h : moment s = moment t) : s = t := by
  cases s
  cases t
  cases h
  rfl

theorem order?_int {m n : Int} (hm : inInt64 m = true) (hn : inInt64 n = true) :
    (Value.int m).order? (.int n) = some (compare m n) := by
  simp [Value.int, Value.order?, Num.order, Num.toInt64?, hm, hn]

/-- The values of a kind are ordered by ranks, and equal if they have one rank. -/
theorem exists_rank (kind : KeyKind) : ∃ (α : Type) (_ : LinearOrder α) (rank : Value → α),
    ∀ v w, kind.Has v → kind.Has w → v.order? w = some (compare (rank v) (rank w)) ∧
      (rank v = rank w → (v == w) = true) := by
  cases kind with
  | integer =>
      refine ⟨Int, inferInstance, amount, ?_⟩
      rintro _ _ ⟨m, hm, rfl⟩ ⟨n, hn, rfl⟩
      exact ⟨order?_int hm hn, beq_iff_eq.mpr⟩
  | text =>
      refine ⟨String, inferInstance, fun v => v.asStr?.getD "", ?_⟩
      rintro _ _ ⟨s, rfl⟩ ⟨t, rfl⟩
      exact ⟨rfl, beq_iff_eq.mpr⟩
  | character =>
      refine ⟨ℕ, inferInstance, code, ?_⟩
      rintro _ _ ⟨c, rfl⟩ ⟨d, rfl⟩
      exact ⟨rfl, fun h => (beq_iff_eq (a := c)).mpr (Char.toNat_inj.mp h)⟩
  | boolean =>
      refine ⟨Bool, inferInstance, fun v => v.asBool?.getD false, ?_⟩
      rintro _ _ ⟨a, rfl⟩ ⟨b, rfl⟩
      exact ⟨by cases a <;> cases b <;> rfl, (beq_iff_eq (a := a)).mpr⟩
  | dateTime =>
      refine ⟨Int ×ₗ ℕ, inferInstance, instant, ?_⟩
      rintro _ _ ⟨s, rfl⟩ ⟨t, rfl⟩
      exact ⟨congrArg some (order_eq_compare_moment s t), fun h =>
        (beq_iff_eq (a := s)).mpr (moment_injective h)⟩
  | dateTimeOffset =>
      refine ⟨Int ×ₗ ℕ, inferInstance, instant, ?_⟩
      rintro _ _ ⟨s, rfl⟩ ⟨t, rfl⟩
      exact ⟨congrArg some (order_eq_compare_moment s.instant t.instant), fun h =>
        (beq_iff_eq (a := s.instant)).mpr (moment_injective h)⟩
  | timeSpan =>
      refine ⟨Int, inferInstance, amount, ?_⟩
      rintro _ _ ⟨⟨m⟩, rfl⟩ ⟨⟨n⟩, rfl⟩
      exact ⟨rfl, fun h => (beq_iff_eq (a := Span.mk m)).mpr (congrArg Span.mk h)⟩
  | guid =>
      refine ⟨ℕ, inferInstance, code, ?_⟩
      rintro _ _ ⟨⟨m⟩, rfl⟩ ⟨⟨n⟩, rfl⟩
      exact ⟨rfl, fun h => (beq_iff_eq (a := Guid.mk m)).mpr (congrArg Guid.mk h)⟩

/-- Upwards and downwards alike, values go before others as ranks do. -/
theorem exists_rank_goesBefore (kind : KeyKind) (descending : Bool) :
    ∃ (α : Type) (_ : LinearOrder α) (rank : Value → α), ∀ v w, kind.Has v → kind.Has w →
      v.goesBefore descending w = decide (rank v < rank w) ∧
        (v.order? w = some .eq ↔ rank v = rank w) ∧ (rank v = rank w → (v == w) = true) := by
  obtain ⟨α, _, rank, hrank⟩ := kind.exists_rank
  have heq : ∀ v w, kind.Has v → kind.Has w → (v.order? w = some .eq ↔ rank v = rank w) := by
    intro v w hv hw
    rw [(hrank v w hv hw).1, Option.some_inj]
    exact compare_eq_iff_eq
  cases descending with
  | false =>
      refine ⟨α, inferInstance, rank, fun v w hv hw => ⟨?_, heq v w hv hw, (hrank v w hv hw).2⟩⟩
      rw [Value.goesBefore, (hrank v w hv hw).1, Bool.eq_iff_iff, beq_iff_eq, decide_eq_true_iff,
        Option.some_inj]
      exact compare_lt_iff_lt
  | true =>
      refine ⟨αᵒᵈ, inferInstance, fun v => OrderDual.toDual (rank v), fun v w hv hw =>
        ⟨?_, heq v w hv hw, (hrank v w hv hw).2⟩⟩
      rw [Value.goesBefore, (hrank v w hv hw).1, Bool.eq_iff_iff, beq_iff_eq, decide_eq_true_iff,
        Option.some_inj]
      exact compare_gt_iff_gt

variable {descending : Bool} {u : Value}

theorem Has.goesBefore_self (hv : kind.Has v) : v.goesBefore descending v = false := by
  obtain ⟨α, _, rank, hrank⟩ := kind.exists_rank_goesBefore descending
  rw [(hrank v v hv hv).1]
  exact decide_eq_false (lt_irrefl _)

/-- What does not go before a value does not go before one that is before that value. -/
theorem Has.goesBefore_eq_false (hu : kind.Has u) (hv : kind.Has v) (hw : kind.Has w)
    (huw : u.goesBefore descending w = false) (hvw : v.goesBefore descending w = true) :
    u.goesBefore descending v = false := by
  obtain ⟨α, _, rank, hrank⟩ := kind.exists_rank_goesBefore descending
  rw [(hrank u w hu hw).1, decide_eq_false_iff_not, not_lt] at huw
  rw [(hrank v w hv hw).1, decide_eq_true_iff] at hvw
  rw [(hrank u v hu hv).1, decide_eq_false_iff_not, not_lt]
  exact hvw.le.trans huw

/-- Values of which neither goes before the other one are equal. -/
theorem Has.beq (hv : kind.Has v) (hw : kind.Has w) (hvw : v.goesBefore descending w = false)
    (hwv : w.goesBefore descending v = false) : (v == w) = true := by
  obtain ⟨α, _, rank, hrank⟩ := kind.exists_rank_goesBefore descending
  rw [(hrank v w hv hw).1, decide_eq_false_iff_not, not_lt] at hvw
  rw [(hrank w v hw hv).1, decide_eq_false_iff_not, not_lt] at hwv
  exact (hrank v w hv hw).2.2 (le_antisymm hwv hvw)

end KeyKind

end Recast
