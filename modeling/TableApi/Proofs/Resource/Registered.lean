import Mathlib.Data.List.Basic
import TableApi.Proofs.Except
import TableApi.Resource.Registry

/-! What registration guarantees of a resource. A resource that was taken in is the one that its
registration defines, and its options list only fields of its model. -/

namespace TableApi.Registry

theorem mem_sortedNames {names : List String} {name : String} :
    name ∈ sortedNames names ↔ name ∈ names := by
  rw [sortedNames, (List.mergeSort_perm _ _).mem_iff, List.mem_eraseDups]

theorem sortedNames_isEmpty_iff {names : List String} :
    (sortedNames names).isEmpty = true ↔ names = [] := by
  rw [List.isEmpty_iff, List.eq_nil_iff_forall_not_mem, List.eq_nil_iff_forall_not_mem]
  simp only [mem_sortedNames]

/-- Checked options list only fields of the model, and search only texts. -/
theorem checkOptions_eq_ok_iff {name : String} {m : Model} {o : Options} :
    checkOptions name m o = .ok () ↔
      (∀ field ∈ o.fieldNames, field ∈ m.fields) ∧
        ∀ field ∈ o.searching.fields, (m.column? field).map Column.kind = some .text := by
  have hunknown : (sortedNames (o.fieldNames.filter fun field =>
      !m.fields.contains field)).isEmpty = true ↔ ∀ field ∈ o.fieldNames, field ∈ m.fields := by
    rw [sortedNames_isEmpty_iff, List.filter_eq_nil_iff]
    simp
  have hnotText : (sortedNames (o.searching.fields.filter fun field =>
      (m.column? field).map Column.kind ≠ some .text)).isEmpty = true ↔
        ∀ field ∈ o.searching.fields, (m.column? field).map Column.kind = some .text := by
    rw [sortedNames_isEmpty_iff, List.filter_eq_nil_iff]
    simp
  rw [← hunknown, ← hnotText]
  simp only [checkOptions]
  generalize (sortedNames (o.fieldNames.filter _)).isEmpty = noUnknown
  generalize (sortedNames (o.searching.fields.filter _)).isEmpty = allText
  cases noUnknown <;> cases allText <;> simp

/-- The parts of a resource are those of a registration, read and checked. -/
structure Defines (key : String) (g : Registration) (r : Resource) : Prop where
  name : r.name = key
  model : r.model = g.model
  options : Options.resolve g.options = .ok r.options
  checked : checkOptions key r.model r.options = .ok ()
  permitted : readPermitted key g.model g.permitted = .ok r.permitted
  indexFields : readFields "index_fields" g.model g.indexFields = .ok r.indexFields?
  showFields : readFields "show_fields" g.model g.showFields = .ok r.showFields?
  hooks : readHooks g.hooks = .ok r.hooks
  collection : r.collection? = g.collection?

theorem defines_of_define {name : String} {g : Registration} {r : Resource}
    (h : define name g = .ok r) : Defines name g r := by
  obtain ⟨options, hoptions, h⟩ := bind_eq_ok_iff.1 h
  obtain ⟨checked, hchecked, h⟩ := bind_eq_ok_iff.1 h
  obtain ⟨permitted, hpermitted, h⟩ := bind_eq_ok_iff.1 h
  obtain ⟨indexFields?, hindex, h⟩ := bind_eq_ok_iff.1 h
  obtain ⟨showFields?, hshow, h⟩ := bind_eq_ok_iff.1 h
  obtain ⟨hooks, hhooks, h⟩ := bind_eq_ok_iff.1 h
  cases h
  exact ⟨rfl, rfl, mapError_eq_ok_iff.1 hoptions, hchecked, hpermitted, hindex, hshow, hhooks, rfl⟩

theorem of_define {name : String} {g : Registration} {r : Resource} (h : define name g = .ok r) :
    r.name = name ∧ r.model = g.model ∧ r.collection? = g.collection? ∧
      checkOptions name r.model r.options = .ok () :=
  have d := defines_of_define h
  ⟨d.name, d.model, d.collection, d.checked⟩

/-- A resource that was taken in is defined under the name of its registration. -/
theorem exists_readName_of_register {registry registry' : Registry} {g : Registration}
    {r : Resource} (h : register registry g = .ok (registry', r)) :
    ∃ name, readName g.name = .ok name ∧ define name g = .ok r := by
  obtain ⟨name, hname, h⟩ := bind_eq_ok_iff.1 h
  split at h
  · cases h
  · obtain ⟨resource, hdefine, h⟩ := bind_eq_ok_iff.1 h
    cases h
    exact ⟨name, hname, hdefine⟩

theorem exists_define_of_register {registry registry' : Registry} {g : Registration} {r : Resource}
    (h : register registry g = .ok (registry', r)) : ∃ name, define name g = .ok r := by
  obtain ⟨name, -, hdefine⟩ := exists_readName_of_register h
  exact ⟨name, hdefine⟩

theorem model_of_register {registry registry' : Registry} {g : Registration} {r : Resource}
    (h : register registry g = .ok (registry', r)) : r.model = g.model := by
  obtain ⟨name, hdefine⟩ := exists_define_of_register h
  exact (defines_of_define hdefine).model

theorem fieldNames_subset_of_register {registry registry' : Registry} {g : Registration}
    {r : Resource} (h : register registry g = .ok (registry', r)) :
    ∀ field ∈ r.options.fieldNames, field ∈ r.model.fields := by
  obtain ⟨name, hdefine⟩ := exists_define_of_register h
  obtain ⟨-, -, -, hchecked⟩ := of_define hdefine
  exact (checkOptions_eq_ok_iff.1 hchecked).1

end TableApi.Registry
