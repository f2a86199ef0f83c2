import Mathlib.Data.List.Find
import TableApi.Proofs.Resource.Commit

/-! Addresses of numbered rows. Where a key numbers the rows, an address is read as an integer, and
the row at the address is the one with this number. -/

namespace TableApi

open Number

def idOf? (address : Value) : Option Int := readInteger? address.plainText

variable {σ : Schema} {m : Model} {c : Column}

theorem Model.readKey_of_rowNumber? (h : m.rowNumber? = some c) (address : Value) :
    m.readKey address = ((idOf? address).elim (.error .noRecord) fun i => .ok (.int i)) := by
  obtain ⟨hsole, hkind⟩ := Model.soleKey?_of_rowNumber? h
  simp only [readKey, hsole, hkind, idOf?]
  cases readInteger? address.plainText <;> rfl

namespace Store

theorem compares_equal_integer (a b : Int) :
    Affinity.numeric.compares .equal (.integer a) (.integer b) = (a == b) := by
  have hscale : (Double.scale : Int) ≠ 0 := by decide +kernel
  have hcompares : Affinity.numeric.compares .equal (.integer a) (.integer b) =
      (compare (a * Double.scale) (b * Double.scale) == .eq) := rfl
  rw [hcompares, Bool.eq_iff_iff, beq_iff_eq, beq_iff_eq, Std.LawfulEqOrd.compare_eq_iff_eq]
  exact ⟨Int.eq_of_mul_eq_mul_right hscale, fun h => by rw [h]⟩

/-- The row with an integer key is the one with this number, as long as the store can hold the
integer. -/
theorem find?_int {s : Store} (hs : s.Sound σ) (hm : m ∈ σ.models) (hc : m.rowNumber? = some c)
    (i : Int) : s.find? m (.int i) =
      if fitsStore i then .ok ((s.rows m).find? (·.number == i))
      else .error (.bind .wideInteger) := by
  obtain ⟨hsole, hkind⟩ := Model.soleKey?_of_rowNumber? hc
  have hbound : Select.prepareAll [(c.kind.parameterType, .int i)] = .ok [Prepared.ofInt i] := by
    rw [hkind]
    rfl
  simp only [find?, hsole, hbound, bind, Except.bind, Prepared.ofInt]
  by_cases hfits : fitsStore i = true
  · simp only [if_pos hfits, bindAll, Except.map]
    have hrow : ∀ row ∈ s.rows m, c.kind.affinity.compares .equal (row.cell c.name) (.integer i) =
        (row.number == i) := by
      intro row hrow
      rw [hs.numbers hm row hrow c hc, hkind]
      exact compares_equal_integer row.number i
    refine congrArg Except.ok (List.find?_congr fun row hmem => ?_)
    simp [hrow row hmem]
  · simp only [if_neg hfits]
    rfl

end Store

namespace Resource

variable {r : Resource} {store : Store}

/-- What is found at an address: the row with the number that it denotes, unless it denotes none,
there is no such row, or the number is one that the store cannot hold. -/
theorem find_eq (hs : store.Sound σ) (hm : r.model ∈ σ.models) (hc : r.model.rowNumber? = some c)
    (address : Value) : r.find store address =
      match idOf? address with
      | none => .error (.refused .noRecord)
      | some i =>
        if fitsStore i then
          ((store.rows r.model).find? (·.number == i)).elim (.error (.refused .noRecord)) .ok
        else .error (.store (.bind .wideInteger)) := by
  unfold find
  rw [Model.readKey_of_rowNumber? hc]
  cases idOf? address with
  | none => rfl
  | some i =>
    have hfind := Store.find?_int hs hm hc i
    simp only [Option.elim_some, mapError_ok, bind, Except.bind, hfind]
    by_cases hfits : fitsStore i = true
    · rw [if_pos hfits, if_pos hfits, mapError_ok]
      cases (store.rows r.model).find? (·.number == i) <;> rfl
    · rw [if_neg hfits, if_neg hfits]
      rfl

/-- The row that is found at an address has the number that the address denotes. -/
theorem number_of_find (hs : store.Sound σ) (hm : r.model ∈ σ.models)
    (hc : r.model.rowNumber? = some c) {address : Value} {row : Row}
    (h : r.find store address = .ok row) :
    idOf? address = some row.number ∧ fitsStore row.number = true := by
  rw [find_eq hs hm hc] at h
  split at h
  · cases h
  · next i hi =>
    split at h
    · next hfits =>
      cases hfind : (store.rows r.model).find? (·.number == i) with
      | none =>
        rw [hfind] at h
        cases h
      | some found =>
        rw [hfind] at h
        cases h
        have hnumber : row.number = i := by simpa using List.find?_some hfind
        rw [hnumber]
        exact ⟨hi, hfits⟩
    · cases h

end Resource

end TableApi
