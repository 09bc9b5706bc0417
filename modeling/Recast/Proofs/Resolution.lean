import Recast.Proofs.Registration

/-! # Types that a table resolves

The data type of a model type is its entry, or else the type over the data types of
its arguments (`TypeTable.dataType_eq`).
-/

namespace Recast

namespace TypeTable

variable (t : TypeTable) (r : Registry)

theorem dataTypes_eq : ∀ us : List Ty, t.dataTypes r us = us.map (t.dataType r)
  | [] => rfl
  | u :: us => by rw [dataTypes, dataTypes_eq us, List.map_cons]

theorem dataMembers_eq : ∀ ms : List Member,
    t.dataMembers r ms = (ms.map (·.ty)).map (t.dataType r)
  | [] => rfl
  | ⟨_, u⟩ :: ms => by rw [dataMembers, dataMembers_eq ms, List.map_cons, List.map_cons]

theorem rebuilt_nil {model : Ty} (h : r.tyArgs model = []) : rebuilt r model [] = model :=
  if_pos h.symm

theorem dataType_of_get? {model data : Ty} (h : t.get? model = some data) :
    t.dataType r model = data := by
  rw [dataType.eq_def, h]

/-- A type without an entry is built over the data types of its arguments. -/
theorem dataType_of_none {model : Ty} (h : t.get? model = none) :
    t.dataType r model = rebuilt r model ((r.tyArgs model).map (t.dataType r)) := by
  rw [dataType.eq_def, h]
  cases model with
  | inst generic args => simp only [Registry.tyArgs, dataTypes_eq]
  | nullable u | array u | seq kind u | expression u | dictionary k v | keyValue k v
  | anonymous ms =>
      simp only [Registry.tyArgs, dataMembers_eq]
      split
      · exact (rebuilt_nil r (by simp_all [Registry.tyArgs])).symm
      · rfl
  | func ps ret =>
      simp only [Registry.tyArgs, dataTypes_eq]
      split
      · exact (rebuilt_nil r (by simp_all [Registry.tyArgs])).symm
      · rw [List.map_append]
        rfl
  | object | void | literal | param | declared =>
      simp [Registry.tyArgs, rebuilt]

/-- In an empty table every type stands for itself. -/
theorem dataType_empty (model : Ty) : ({} : TypeTable).dataType r model = model := by
  have hargs : (r.tyArgs model).map (({} : TypeTable).dataType r) = r.tyArgs model :=
    (List.map_congr_left fun u hu => by
      have hsize := Registry.size_lt_of_mem_tyArgs hu
      exact dataType_empty u).trans (List.map_id' _)
  rw [dataType_of_none {} r rfl, hargs]
  exact if_pos rfl
termination_by model.size

end TypeTable

end Recast
