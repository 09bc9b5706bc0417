import Recast.Proofs.Progress

/-! # Replacements of parameters

A parameter is replaced when it is first seen: by itself if its type stays, by a new
parameter otherwise.  `Replacing` says how parameters have been replaced so far; every
step of recasting keeps it, and the replacements there are (`Recaster.respects_replacing`,
`Recaster.respects_keeping`).
-/

namespace Recast

/-! ## §1  Replacements so far -/

namespace Replacements

variable {b b' : Replacements} {p p' q : Parameter}

/-- A parameter that was replaced before stays as it was replaced; one that was not gets a
replacement of the data type, itself if that is its own type. -/
theorem replace_cases {data : Ty} {fresh fresh' : Nat}
    (h : b.replace p data fresh = (p', b', fresh')) :
    b.get? p = some p' ∧ b' = b ∧ fresh' = fresh ∨
      b.get? p = none ∧ b' = ⟨(p.id, p') :: b.entries⟩ ∧
        (data = p.ty ∧ p' = p ∧ fresh' = fresh ∨
          data ≠ p.ty ∧ p' = ⟨fresh, p.name, data⟩ ∧ fresh' = fresh + 1) := by
  unfold replace at h
  split at h
  · rename_i q hq
    cases h
    exact .inl ⟨hq, rfl, rfl⟩
  · rename_i hnone
    split at h
    · rename_i hdata
      cases h
      exact .inr ⟨hnone, rfl, .inl ⟨hdata, rfl, rfl⟩⟩
    · rename_i hdata
      cases h
      exact .inr ⟨hnone, rfl, .inr ⟨hdata, rfl, rfl⟩⟩

theorem get?_cons {id : Nat} :
    Replacements.get? ⟨(id, q) :: b.entries⟩ p = if p.id = id then some q else b.get? p := by
  simp only [get?, List.lookup_cons]
  split <;> simp_all

theorem get?_replace {data : Ty} {fresh fresh' : Nat}
    (h : b.replace p data fresh = (p', b', fresh')) : b'.get? p = some p' := by
  rcases replace_cases h with ⟨hold, rfl, -⟩ | ⟨-, rfl, -⟩
  · exact hold
  · rw [get?_cons, if_pos rfl]

theorem replace_keeping {data : Ty} {fresh fresh' : Nat}
    (h : b.replace p data fresh = (p', b', fresh')) {r : Parameter} (hq : b.get? q = some r) :
    b'.get? q = some r := by
  rcases replace_cases h with ⟨-, rfl, -⟩ | ⟨hnone, rfl, -⟩
  · exact hq
  · rw [get?_cons, if_neg]
    · exact hq
    · intro hid
      rw [get?, ← hid] at hnone
      cases hnone.symm.trans hq

end Replacements

/-- The parameters replaced so far keep their replacements. -/
def Replacements.Keeping (b b' : Replacements) : Prop :=
  ∀ p q, b.get? p = some q → b'.get? p = some q

/-- How parameters are replaced: by themselves, or by new ones of other types whose numbers lie
between `n` and the next free one.  No two have the same replacement. -/
structure Replacing (known : Parameter → Prop) (n : Nat) (b : Replacements) (fresh : Nat) :
    Prop where
  le : n ≤ fresh
  cases : ∀ p, known p → ∀ q, b.get? p = some q →
    q = p ∨ n ≤ q.id ∧ q.id < fresh ∧ q.name = p.name ∧ q.ty ≠ p.ty
  apart : ∀ p, known p → ∀ p', known p' → ∀ q q', b.get? p = some q → b.get? p' = some q' →
    q.id = q'.id → p = p'

section Replacing

variable {known : Parameter → Prop} {n : Nat}
  (hdistinct : ∀ p q, known p → known q → p.id = q.id → p = q)
  (hbelow : ∀ p, known p → p.id < n)
include hdistinct

/-- One more replacement, of a number that no other one has. -/
theorem Replacing.add {b : Replacements} {fresh fresh' : Nat} {p p' : Parameter}
    (h : Replacing known n b fresh) (hp : known p) (hle : fresh ≤ fresh')
    (hp' : p' = p ∨ n ≤ p'.id ∧ p'.id < fresh' ∧ p'.name = p.name ∧ p'.ty ≠ p.ty)
    (hnew : ∀ q, known q → ∀ r, b.get? q = some r → r.id ≠ p'.id) :
    Replacing known n ⟨(p.id, p') :: b.entries⟩ fresh' where
  le := Nat.le_trans h.le hle
  cases q hq r hr := by
    rw [Replacements.get?_cons] at hr
    split at hr
    · -- Numbers tell the known parameters apart, so this is the one that is added.
      rename_i hid
      obtain rfl := hdistinct q p hq hp hid
      obtain rfl := Option.some.inj hr
      exact hp'
    · rcases h.cases q hq r hr with hsame | ⟨hn, hlt, hrest⟩
      · exact .inl hsame
      · exact .inr ⟨hn, Nat.lt_of_lt_of_le hlt hle, hrest⟩
  apart q hq q' hq' r r' hr hr' hid := by
    rw [Replacements.get?_cons] at hr hr'
    split at hr
    · rename_i hqp
      obtain rfl := Option.some.inj hr
      split at hr'
      · rename_i hqp'
        exact hdistinct q q' hq hq' (hqp.trans hqp'.symm)
      · exact absurd hid.symm (hnew q' hq' r' hr')
    · split at hr'
      · obtain rfl := Option.some.inj hr'
        exact absurd hid (hnew q hq r hr)
      · exact h.apart q hq q' hq' r r' hr hr' hid

include hbelow

theorem Replacing.replace {b b' : Replacements} {fresh fresh' : Nat} {p p' : Parameter} {data : Ty}
    (h : Replacing known n b fresh) (hp : known p)
    (hrun : b.replace p data fresh = (p', b', fresh')) : Replacing known n b' fresh' := by
  rcases Replacements.replace_cases hrun with ⟨-, rfl, rfl⟩ | ⟨hnone, rfl, ⟨-, rfl, rfl⟩ | ⟨hdata, rfl, rfl⟩⟩
  · exact h
  · -- A parameter that stays has a number below `n`, and was not replaced before.
    refine h.add hdistinct hp (Nat.le_refl _) (.inl rfl) fun q hq r hr hid => ?_
    rcases h.cases q hq r hr with rfl | ⟨hn, -⟩
    · obtain rfl := hdistinct r p' hq hp hid
      cases hnone.symm.trans hr
    · exact absurd (hbelow p' hp) (by omega)
  · refine h.add hdistinct hp (Nat.le_succ _) (.inr ⟨h.le, Nat.lt_succ_self _, rfl, hdata⟩)
      fun q hq r hr hid => ?_
    rcases h.cases q hq r hr with rfl | ⟨-, hlt, -⟩
    · exact absurd (hbelow r hq) (by have := h.le; simp only at hid; omega)
    · exact absurd hlt (by simp only at hid; omega)

end Replacing

/-! ### Through a run -/

namespace Recaster

variable {w : Recaster} {known : Parameter → Prop}

/-- A relation between replacements has to be looked at only where a parameter is replaced. -/
theorem respects_replacements {R : Replacements × Nat → Replacements × Nat → Prop}
    (hrefl : ∀ b, R b b) (htrans : ∀ {b b' b''}, R b b' → R b' b'' → R b b'')
    (hreplace : ∀ {p p' data b b' fresh fresh'}, known p →
      Replacements.replace b p data fresh = (p', b', fresh') → R (b, fresh) (b', fresh')) :
    w.Respects known fun s s' => R (s.replacements, s.fresh) (s'.replacements, s'.fresh) where
  refl s := hrefl _
  trans := htrans
  dataType _ _ := hrefl _
  relate _ _ := evolves_onTable (R := fun _ _ => True) (fun _ => trivial) fun _ _ _ => hrefl _
  dataPath _ _ _ _ := evolves_onTable (R := fun _ _ => True) (fun _ => trivial) fun _ _ _ => hrefl _
  noteBuilt _ _ := hrefl _
  replace p hp s := by
    rcases hrun : s.replacements.replace p (s.table.dataType w.types p.ty) s.fresh with
      ⟨p', b', fresh'⟩
    have hreturns : Returns (w.replace p) s p' _ := returns_replace.mpr ⟨b', fresh', hrun, rfl⟩
    rw [hreturns]
    exact hreplace hp hrun

/-- The state keeps the replacements there were. -/
def KeepsReplacements (s s' : RecastState) : Prop := s.replacements.Keeping s'.replacements

theorem respects_keeping (w : Recaster) : w.Respects (fun _ => True) KeepsReplacements :=
  respects_replacements (R := fun b b' => b.1.Keeping b'.1) (fun _ _ _ h => h)
    (fun h h' p q hq => h' p q (h p q hq))
    fun _ hrun _ _ hq => Replacements.replace_keeping hrun hq

theorem respects_replacing {n : Nat}
    (hdistinct : ∀ p q, known p → known q → p.id = q.id → p = q)
    (hbelow : ∀ p, known p → p.id < n) :
    w.Respects known fun s s' =>
      Replacing known n s.replacements s.fresh → Replacing known n s'.replacements s'.fresh :=
  respects_replacements
    (R := fun b b' => Replacing known n b.1 b.2 → Replacing known n b'.1 b'.2) (fun _ h => h)
    (fun h h' hb => h' (h hb)) fun hp hrun h => h.replace hdistinct hbelow hp hrun

end Recaster

/-! ## §2  What stands for a parameter -/

/-- What stands for a parameter now: itself as long as it was not replaced. -/
def RecastState.standsFor (s : RecastState) (p : Parameter) : Parameter :=
  (s.replacements.get? p).getD p

theorem Replacing.start {known : Parameter → Prop} (n : Nat) : Replacing known n {} n where
  le := Nat.le_refl n
  cases _ _ _ hq := by cases hq
  apart _ _ _ _ _ _ hq := by cases hq

section StandsFor

variable {known : Parameter → Prop} {n : Nat} {s : RecastState}
  (h : Replacing known n s.replacements s.fresh)
include h

/-- A parameter stands for itself, or a new one of another type stands for it. -/
theorem Replacing.standsFor_cases {p : Parameter} (hp : known p) :
    s.standsFor p = p ∨
      n ≤ (s.standsFor p).id ∧ (s.standsFor p).name = p.name ∧ (s.standsFor p).ty ≠ p.ty := by
  unfold RecastState.standsFor
  cases hq : s.replacements.get? p with
  | none => exact .inl rfl
  | some q => exact (h.cases p hp q hq).imp_right fun ⟨hn, _, hrest⟩ => ⟨hn, hrest⟩

theorem Replacing.standsFor_apart (hdistinct : ∀ p q, known p → known q → p.id = q.id → p = q)
    (hbelow : ∀ p, known p → p.id < n) {p p' : Parameter} (hp : known p) (hp' : known p')
    (hid : (s.standsFor p).id = (s.standsFor p').id) : p = p' := by
  rcases h.standsFor_cases hp with hsame | ⟨hn, -⟩
  · rcases h.standsFor_cases hp' with hsame' | ⟨hn', -⟩
    · exact hdistinct p p' hp hp' (by rwa [hsame, hsame'] at hid)
    · rw [hsame] at hid
      exact absurd (hbelow p hp) (by omega)
  · rcases h.standsFor_cases hp' with hsame' | ⟨hn', -, hty'⟩
    · rw [hsame'] at hid
      exact absurd (hbelow p' hp') (by omega)
    · -- Both are replaced, and no two have the same replacement.
      unfold RecastState.standsFor at hid
      cases hq : s.replacements.get? p with
      | none =>
          rw [RecastState.standsFor, hq] at hn
          exact absurd (hbelow p hp) (by simpa using hn)
      | some q =>
          cases hq' : s.replacements.get? p' with
          | none =>
              rw [RecastState.standsFor, hq'] at hn'
              exact absurd (hbelow p' hp') (by simpa using hn')
          | some q' =>
              rw [hq, hq'] at hid
              exact h.apart p hp p' hp' q q' hq hq' hid

end StandsFor

end Recast
