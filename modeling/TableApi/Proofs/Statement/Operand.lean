import TableApi.Proofs.Coercion.Instance
import TableApi.Proofs.Statement.Check

/-! The cell that a value is compared as. For a value of the type of its column it is no null, and
it does not matter whether the value stands alone or among the values of a list: a list gives all
its parameters the type of its first value, which prepares the others as their own type does. -/

namespace TableApi

open Number

/-- Whether a value of a number kind is no number. -/
def Value.isNan : Value → Bool
  | .float x => x.isNan
  | .decimal (.nan _ _ _) => true
  | _ => false

theorem Double.isNan_ofRatio (negative : Bool) (num den : Nat) :
    (ofRatio negative num den).isNan = false := by
  unfold ofRatio
  simp only
  split <;> rfl

theorem Double.isNan_ofDecimal (negative : Bool) (digits : Nat) (exponent : Int) :
    (ofDecimal negative digits exponent).isNan = false := by
  unfold ofDecimal
  simp only
  split
  · rfl
  · split
    · rfl
    · split <;> exact isNan_ofRatio _ _ _

namespace Coercion

/-- A value of the type of a column, as coercion leaves it. -/
structure Typed (kind : ColumnKind) (x : Value) : Prop where
  isInstance : isInstance kind x = true
  isNumber : x.isNan = false
  isDate : kind = .date → ∃ d, x = .date d

theorem typed_of_coerce {kind : ColumnKind} {v x : Value} (h : coerce kind v = .ok x)
    (hx : isInstance kind x = true) (hnumber : x.isNan = false) : Typed kind x := by
  refine ⟨hx, hnumber, ?_⟩
  rintro rfl
  exact exists_date_of_coerce h hx

/-- Only columns of integers have values of two types. -/
theorem compared_eq_of_typed {kind : ColumnKind} (hkind : kind ≠ .integer) {x y : Value}
    (hx : Typed kind x) (hy : Typed kind y) :
    ParameterType.compared (some kind) x = ParameterType.compared (some kind) y := by
  have hisx := hx.isInstance
  have hisy := hy.isInstance
  cases kind with
  | integer => contradiction
  | date =>
    obtain ⟨d, rfl⟩ := hx.isDate rfl
    obtain ⟨e, rfl⟩ := hy.isDate rfl
    rfl
  | float | numeric | boolean | text | moment | uuid =>
    cases x <;> cases hisx
    cases y <;> cases hisy
    rfl
  | json | raw => cases hisx

end Coercion

namespace Clause

open Coercion Select

/-- The cell that a value alone is compared as. -/
def operandCell (kind : ColumnKind) (x : Value) : Cell := boundCell (.compared (some kind) x, x)

variable {kind : ColumnKind} {x y : Value}

theorem boundCell_of_prepare {p : ParameterType × Value} {c : Cell}
    (h : p.1.prepare p.2 = .ok (.cell c)) : boundCell p = c := by
  rw [boundCell, h]

theorem eq_integer_of_ofInt {n : Int} {c : Cell} (h : Prepared.ofInt n = .cell c) :
    c = .integer n := by
  unfold Prepared.ofInt at h
  split at h
  · exact (Prepared.cell.inj h).symm
  · cases h

theorem eq_real_of_ofDouble {y : Double} (hy : y.isNan = false) {c : Cell}
    (h : Prepared.ofDouble y = .cell c) : c = .real y := by
  rw [Prepared.ofDouble, hy] at h
  exact (Prepared.cell.inj h).symm

theorem isNan_of_toDouble? {d : Decimal} (hd : (Value.decimal d).isNan = false) {y : Double}
    (hy : d.toDouble? = some y) : y.isNan = false := by
  cases d with
  | finite negative coefficient exponent =>
    rw [← Option.some.inj hy]
    exact Double.isNan_ofDecimal _ _ _
  | infinite negative =>
    rw [← Option.some.inj hy]
    rfl
  | nan negative signaling payload => cases hd

theorem exists_eq_real_of_prepareNumber {d : Decimal} (hd : (Value.decimal d).isNan = false)
    {c : Cell} (h : ParameterType.prepareNumber (.decimal d) = .ok (.cell c)) :
    ∃ y, c = .real y := by
  unfold ParameterType.prepareNumber at h
  simp only at h
  split at h
  · next y hy =>
    exact ⟨y, eq_real_of_ofDouble (isNan_of_toDouble? hd hy) (Except.ok.inj h)⟩
  · cases h

/-- A typed value that can be bound is not compared as null. -/
theorem isNull_operandCell (hx : Typed kind x) (hbinds : Binds (.compared (some kind) x, x)) :
    (operandCell kind x).isNull = false := by
  obtain ⟨c, hc⟩ := hbinds
  rw [operandCell, boundCell_of_prepare hc]
  have hisx := hx.isInstance
  have hnumber := hx.isNumber
  cases kind with
  | integer =>
    cases x with
    | bool b =>
      cases hc
      rfl
    | int n =>
      rw [eq_integer_of_ofInt (Except.ok.inj hc)]
      rfl
    | _ => cases hisx
  | float =>
    cases x with
    | float y =>
      rw [eq_real_of_ofDouble hnumber (Except.ok.inj hc)]
      rfl
    | _ => cases hisx
  | numeric =>
    cases x with
    | decimal d =>
      obtain ⟨y, rfl⟩ := exists_eq_real_of_prepareNumber hnumber hc
      rfl
    | _ => cases hisx
  | boolean | text | date | moment | uuid =>
    cases x <;> cases hisx <;> cases hc <;> rfl
  | json | raw => cases hisx

theorem boundCell_boolean {n : Int} (hbinds : Binds (.boolean, .int n)) :
    boundCell (.boolean, .int n) = .integer n ∧ operandCell .integer (.int n) = .integer n := by
  obtain ⟨c, hc⟩ := hbinds
  have hprepare : ParameterType.prepareBoolean (.int n) = .ok (.cell c) := hc
  unfold ParameterType.prepareBoolean at hprepare
  simp only at hprepare
  split at hprepare
  · next hn =>
    have hgiven : Prepared.ofInt n = .cell (.integer n) := by rcases hn with rfl | rfl <;> rfl
    have hprepared : ParameterType.prepare .asGiven (.int n) = .ok (.cell (.integer n)) :=
      congrArg Except.ok hgiven
    cases hprepare
    exact ⟨boundCell_of_prepare hc, boundCell_of_prepare hprepared⟩
  · cases hprepare

/-- Among the values of a list a typed value is compared as the cell that it is compared as
alone. -/
theorem boundCell_compared (hy : Typed kind y) (hx : Typed kind x)
    (hbinds : Binds (.compared (some kind) y, x)) :
    boundCell (.compared (some kind) y, x) = operandCell kind x ∧
      (operandCell kind x).isNull = false := by
  by_cases hkind : kind = .integer
  · subst hkind
    have hisx := hx.isInstance
    have hisy := hy.isInstance
    -- The values are integers and truth values, whose types differ.
    cases x with
    | bool b => cases y <;> cases hisy <;> exact ⟨rfl, rfl⟩
    | int n =>
      cases y with
      | bool b =>
        obtain ⟨hlist, halone⟩ := boundCell_boolean hbinds
        rw [halone]
        exact ⟨hlist, rfl⟩
      | int k => exact ⟨rfl, isNull_operandCell hx hbinds⟩
      | _ => cases hisy
    | _ => cases hisx
  · rw [compared_eq_of_typed hkind hy hx] at hbinds ⊢
    exact ⟨rfl, isNull_operandCell hx hbinds⟩

theorem isNull_of_typed (hx : Typed kind x) : x.isNull = false := by
  have hisx := hx.isInstance
  cases x with
  | null => cases kind <;> cases hisx
  | _ => rfl

theorem operandCell_bool {b : Bool} (hx : Typed kind (.bool b)) :
    operandCell kind (.bool b) = .integer b.toNat := by
  have hisx := hx.isInstance
  cases kind <;> cases hisx <;> rfl

theorem listType_cons {c : Column} (hx : Typed c.kind x) (rest : List Value) :
    listType (.column c) (x :: rest) = .compared (some c.kind) x := by
  simp [listType, isNull_of_typed hx, Term.kind?]

/-- Every typed value of a list is compared as the cell that it is compared as alone. -/
theorem boundCell_listType {c : Column} {xs : List Value} (hxs : ∀ x ∈ xs, Typed c.kind x)
    (hbinds : ∀ p ∈ (isIn (.column c) xs).parameters, Binds p) (hx : x ∈ xs) :
    boundCell (listType (.column c) xs, x) = operandCell c.kind x ∧
      (operandCell c.kind x).isNull = false := by
  have hbinds : ∀ p ∈ xs.map fun x => (listType (.column c) xs, x), Binds p := hbinds
  cases xs with
  | nil => cases hx
  | cons first rest =>
    have hfirst := hxs first List.mem_cons_self
    have hbind := hbinds _ (List.mem_map_of_mem hx)
    rw [listType_cons hfirst] at hbind ⊢
    exact boundCell_compared hfirst (hxs x hx) hbind

theorem boundCells_isIn {c : Column} {xs : List Value} (hxs : ∀ x ∈ xs, Typed c.kind x)
    (hbinds : ∀ p ∈ (isIn (.column c) xs).parameters, Binds p) :
    (isIn (.column c) xs).boundCells = xs.map (operandCell c.kind) := by
  rw [boundCells, parameters, List.map_map]
  apply List.map_congr_left
  intro x hx
  exact (boundCell_listType hxs hbinds hx).1

end Clause

end TableApi
