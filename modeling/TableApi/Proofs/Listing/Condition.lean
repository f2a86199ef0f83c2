import Mathlib.Data.List.Basic
import TableApi.Listing.Condition

/-! What reading a raw filter guarantees. Every condition is on a field that may be filtered, and no
set of values is left for an operator that compares by order. -/

namespace TableApi

def Operator.isOrdered : Operator → Bool
  | .gt | .gte | .lt | .lte => true
  | .eq | .neq | .isIn | .notIn => false

namespace Condition

/-- The values of a set are only taken by operators that need no order. -/
def WellShaped (c : Condition) : Prop :=
  ∀ vs, c.operand = .many vs → c.operator.isOrdered = false

theorem operand?_many {op : Operator} {v : Value} {vs : List Value}
    (h : operand? op v = some (.many vs)) : op.isOrdered = false := by
  cases hs : shape? op v with
  | none => simp [operand?, hs] at h
  | some operand =>
    cases operand with
    | one w => simp [operand?, hs] at h
    | many items =>
      unfold shape? at hs
      cases op with
      | eq | neq | isIn | notIn => rfl
      | gt | gte | lt | lte => cases hi : v.items? <;> cases hm : v.isMap <;> simp [hi, hm] at hs

theorem of_read? {fields : List String} {field : String} {raw : Value} {c : Condition}
    (h : read? fields field raw = some c) : c.field ∈ fields ∧ c.WellShaped := by
  unfold read? at h
  split at h
  · next hfield =>
    obtain ⟨⟨op, v⟩, -, h⟩ := Option.bind_eq_some_iff.1 h
    obtain ⟨operand, hoperand, h⟩ := Option.bind_eq_some_iff.1 h
    rw [← Option.some.inj h]
    refine ⟨by simpa using hfield, ?_⟩
    intro vs hvs
    exact operand?_many (hoperand.trans (congrArg some hvs))
  · cases h

/-- What reading a raw filter guarantees of every condition. -/
theorem of_mem_readAll {fields : List String} {raw : Value} {c : Condition}
    (h : c ∈ readAll fields raw) : c.field ∈ fields ∧ c.WellShaped := by
  cases raw with
  | map entries =>
    obtain ⟨⟨field, v⟩, -, hread⟩ := List.mem_filterMap.1 h
    exact of_read? hread
  | _ => simp [readAll] at h

end Condition

end TableApi
