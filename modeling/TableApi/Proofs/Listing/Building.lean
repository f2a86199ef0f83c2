import TableApi.Proofs.Coercion
import TableApi.Proofs.Listing.Refinement

/-! When the statement of a listing can be built. The shape of every condition is checked before its
values are coerced, and coercion can turn a value into one that the operator does not take. This is
the only way in which building fails: there is a condition whose value overflows the number kind of
its column, or a comparison of order with a value that stands in no order. -/

namespace TableApi

open Coercion

namespace Condition

/-- Whether a condition on a column of a kind has no clause. -/
def breaks (kind : ColumnKind) (c : Condition) : Bool :=
  match c.operand with
  | .one v => overflows kind v || (c.operator.isOrdered && losesOrder kind v)
  | .many vs => vs.any (overflows kind)

end Condition

namespace Listing

theorem ordering_ok_iff (t : Term) (c : Comparison) (v : Value) :
    (∃ clause, ordering t c v = .ok clause) ↔ v.hasNoOrder = false := by
  cases v <;> simp [ordering, Value.hasNoOrder]

theorem clauseOf_one_ok_iff (t : Term) (op : Operator) (v : Value) :
    (∃ clause, clauseOf t op (.one v) = .ok clause) ↔
      (op.isOrdered && v.hasNoOrder) = false := by
  cases op with
  | eq | neq | isIn | notIn => simp [clauseOf, Operator.isOrdered]
  | gt | gte | lt | lte => simp [clauseOf, Operator.isOrdered, ordering_ok_iff]

theorem clauseOf_many_ok (t : Term) {op : Operator} (h : op.isOrdered = false) (vs : List Value) :
    ∃ clause, clauseOf t op (.many vs) = .ok clause := by
  cases op with
  | eq | neq | isIn | notIn => simp [clauseOf]
  | gt | gte | lt | lte => cases h

theorem coerceFor_column (c : Column) (v : Value) :
    coerceFor (.column c) v = (coerce c.kind v).mapError .coercion := rfl

theorem coerceFor_ok_iff (c : Column) (v : Value) :
    (∃ x, coerceFor (.column c) v = .ok x) ↔ overflows c.kind v = false := by
  simp only [← coerce_ok_iff, coerceFor_column, mapError_eq_ok_iff]

theorem hasNoOrder_coerceFor {c : Column} {v x : Value} (h : coerceFor (.column c) v = .ok x) :
    x.hasNoOrder = losesOrder c.kind v := by
  rw [coerceFor_column] at h
  exact hasNoOrder_coerce (mapError_eq_ok_iff.1 h)

/-- The condition of a column has a clause exactly when it does not break. -/
theorem clauseOfCondition_ok_iff {m : Model} {c : Condition} {col : Column}
    (hcol : m.column? c.field = some col) (hshape : c.WellShaped) :
    (∃ clause, clauseOfCondition (some m) c = .ok clause) ↔ c.breaks col.kind = false := by
  have hterm : Term.ofField (some m) c.field = .column col := by simp [Term.ofField, hcol]
  unfold clauseOfCondition Condition.breaks
  rw [hterm]
  cases ho : c.operand with
  | one v =>
    simp only [coerceOperand]
    cases hv : coerceFor (.column col) v with
    | error e =>
      have hover : overflows col.kind v = true := by
        by_contra hnot
        obtain ⟨x, hx⟩ := (coerceFor_ok_iff col v).2 (by simpa using hnot)
        rw [hx] at hv
        cases hv
      simp [bind, Except.bind, Except.map, hover]
    | ok x =>
      have hfits : overflows col.kind v = false := (coerceFor_ok_iff col v).1 ⟨x, hv⟩
      simp only [bind, Except.bind, Except.map]
      rw [clauseOf_one_ok_iff, hasNoOrder_coerceFor hv, hfits, Bool.false_or]
  | many vs =>
    have hall : (∃ xs, vs.mapM (coerceFor (.column col)) = .ok xs) ↔
        vs.any (overflows col.kind) = false := by
      rw [mapM_ok_iff]
      simp only [coerceFor_ok_iff, List.any_eq_false, Bool.not_eq_true]
    rw [← hall]
    simp only [coerceOperand]
    cases vs.mapM (coerceFor (.column col)) with
    | error e => simp [bind, Except.bind, Except.map]
    | ok xs =>
      simp only [bind, Except.bind, Except.map]
      exact ⟨fun _ => ⟨xs, rfl⟩, fun _ => clauseOf_many_ok _ (hshape vs ho) xs⟩

theorem mem_fieldNames_of_filtering {o : Options} {field : String}
    (h : field ∈ o.filtering.fields) : field ∈ o.fieldNames := by
  rw [Options.fieldNames, List.mem_eraseDups]
  exact List.mem_append_right _ h

theorem exists_compile_iff {store : Store} {o : Options} {params : Entries Value} {base : Select}
    (htotals : o.totals.enabled = false) :
    (∃ l, compile store o params base = .ok l) ↔ ∃ s, refine o params base = .ok s := by
  simp only [compile, htotals, bind, Except.bind]
  cases refine o params base <;> simp [pure, Except.pure]

/-- A listing without totals, whose options name only columns of its table, compiles exactly when no
condition of its parameters breaks on its column. -/
theorem compile_ok_iff_no_breaks {store : Store} {o : Options} {params : Entries Value}
    {base : Select} {m : Model} (hbase : base.isWindowed = false) (hmodel : base.model? = some m)
    (htotals : o.totals.enabled = false) (hfields : ∀ field ∈ o.fieldNames, field ∈ m.fields) :
    (∃ l, compile store o params base = .ok l) ↔
      ∀ c ∈ conditions o params, ∀ col, m.column? c.field = some col →
        c.breaks col.kind = false := by
  have hbuilt : (∃ s, refine o params base = .ok s) ↔
      ∃ clauses, (conditions o params).mapM (clauseOfCondition base.model?) = .ok clauses := by
    simp only [refine_eq_ok_iff hbase]
    exact ⟨fun ⟨_, clauses, h, _⟩ => ⟨clauses, h⟩, fun ⟨clauses, h⟩ => ⟨_, clauses, h, rfl⟩⟩
  rw [exists_compile_iff htotals, hbuilt, mapM_ok_iff, hmodel]
  constructor
  · intro h c hc col hcol
    exact (clauseOfCondition_ok_iff hcol (of_mem_conditions hc).2).1 (h c hc)
  · intro h c hc
    obtain ⟨hfield, hshape⟩ := of_mem_conditions hc
    obtain ⟨col, hcol⟩ := Model.exists_column?_of_mem (hfields _ (mem_fieldNames_of_filtering hfield))
    exact (clauseOfCondition_ok_iff hcol hshape).2 (h c hc col hcol)

def articles : Model := ⟨"Article", "articles", [(Column.plain "id" .integer).asKey,
  Column.plain "featured" .boolean]⟩

/-- Options that allow nothing but filters on whether an article is featured. -/
def featuredFilter : Options where
  pagination := ⟨false, "page", "size", ⟨1, Nat.one_pos⟩, ⟨1, Nat.one_pos⟩⟩
  sorting := ⟨false, "sort", .ascending, []⟩
  searching := ⟨false, "q", []⟩
  filtering := ⟨true, "filter", ["featured"]⟩
  totals := ⟨false, "rows", "total"⟩

/-- The parameters that ask for the articles whose mark stands to a text as an operator says. -/
def featured (operator text : String) : Entries Value :=
  [("filter", .map [("featured", .map [(operator, .text text)])])]

/-- Asking for the articles that are featured is fine. -/
theorem compile_featured_equal :
    ∃ l, compile [] featuredFilter (featured "eq" "true") (.all articles) = .ok l := by
  have hconditions : conditions featuredFilter (featured "eq" "true") =
      [⟨"featured", .eq, .one (.text "true")⟩] := rfl
  refine (compile_ok_iff_no_breaks rfl rfl rfl (by decide)).2 ?_
  rw [hconditions]
  intro c hc col hcol
  rw [List.mem_singleton.1 hc]
  cases col.kind <;> rfl

/-- Asking for more than the truth is not: the word is well shaped, and only its coercion takes its
order away. -/
theorem not_compile_featured_greater :
    (Select.all articles).isWindowed = false ∧ featuredFilter.totals.enabled = false ∧
      (∀ field ∈ featuredFilter.fieldNames, field ∈ articles.fields) ∧
      ¬ ∃ l, compile [] featuredFilter (featured "gt" "true") (.all articles) = .ok l := by
  have hunordered : compile [] featuredFilter (featured "gt" "true") (.all articles) =
      .error (.build .unordered) := rfl
  refine ⟨rfl, rfl, by decide, ?_⟩
  rintro ⟨l, hl⟩
  rw [hunordered] at hl
  cases hl

end Listing

end TableApi
