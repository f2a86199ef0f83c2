import TableApi.Proofs.Listing.Building
import TableApi.Proofs.Listing.Pages
import TableApi.Proofs.Listing.Terms
import TableApi.Proofs.Statement.Operand
import TableApi.Proofs.Statement.Order

/-! The rows that a filter on one column selects. The value of the filter is made a value of the
type of the column, and that a cell; with it the filter compares the cells of the rows as its
operator says. Among the values of a list a value stands for the cell that it stands for alone. -/

namespace TableApi.Listing

open Coercion Select

/-! ### The rows of a filter -/

/-- The parameters that filter one field by one operator. -/
def filterBy (o : Options) (field : String) (op : Operator) (v : Value) : Entries Value :=
  [(o.filtering.filterParam, .map [(field, .map [(op.word, v)])])]

/-- The rows that a filter on one field selects, when its query runs. -/
def Selects (store : Store) (o : Options) (m : Model) (field : String) (op : Operator) (v : Value)
    (rows : List Row) : Prop :=
  ∃ here, shown store o.unpaged (filterBy o field op v) (.all m) = .ok here ∧ here.rows = rows

def isPresent (c : Column) (r : Row) : Bool := !(r.cell c.name).isNull

variable {store : Store} {o : Options} {m : Model} {field : String} {c : Column} {op : Operator}
  {v : Value} {rows : List Row}

theorem ofWord?_word (op : Operator) : Operator.ofWord? op.word = some op := by
  cases op <;> rfl

theorem conditions_filterBy (hon : o.filtering.enabled = true) (hfield : field ∈ o.filtering.fields)
    {operand : Operand} (hoperand : Condition.operand? op v = some operand) :
    conditions o (filterBy o field op v) = [⟨field, op, operand⟩] := by
  have hvalue : Params.value (filterBy o field op v) o.filtering.filterParam =
      .map [(field, .map [(op.word, v)])] := by
    simp [Params.value, filterBy, Entries.get?]
  have hread : Condition.read? o.filtering.fields field (.map [(op.word, v)]) =
      some ⟨field, op, operand⟩ := by
    simp [Condition.read?, hfield, Condition.choose?, Condition.firstOperator?, ofWord?_word,
      hoperand]
  rw [conditions, if_pos hon, hvalue, Condition.readAll]
  simp only [List.filterMap_cons, hread, List.filterMap_nil]

theorem value_filterBy (o : Options) (field : String) (op : Operator) (v : Value) (name : String) :
    Params.value (filterBy o field op v) name = .map [(field, .map [(op.word, v)])] ∨
      Params.value (filterBy o field op v) name = .null := by
  unfold Params.value filterBy
  by_cases h : o.filtering.filterParam = name
  · exact .inl (by simp [Entries.get?, h])
  · exact .inr (by simp [Entries.get?, List.lookup_cons, beq_false_of_ne (Ne.symm h)])

theorem searchClauses_filterBy (o : Options) (model? : Option Model) :
    searchClauses o (filterBy o field op v) model? = [] := by
  have htext : searchText? o.searching (filterBy o field op v) = none := by
    rcases value_filterBy o field op v o.searching.searchParam with h | h <;>
      rw [searchText?, h]
  simp [searchClauses, htext]

theorem orderTerms_filterBy (o : Options) (model? : Option Model) :
    orderTerms o (filterBy o field op v) model? = [] := by
  have hterms : sortTerms o.sorting (filterBy o field op v) model? = [] := by
    rcases value_filterBy o field op v o.sorting.sortParam with h | h <;> rw [sortTerms, h]
  simp [orderTerms, hterms]

theorem of_shown_unpaged {params : Entries Value} {base : Select} {here : Shown}
    (h : shown store o.unpaged params base = .ok here) :
    ∃ s, refine o params base = .ok s ∧ s.check store = .ok () ∧ s.rowsOf store = here.rows := by
  rw [shown_unpaged_eq] at h
  obtain ⟨s, hs, h⟩ := bind_eq_ok_iff.1 h
  refine ⟨s, mapError_eq_ok_iff.1 hs, ?_⟩
  cases hcheck : s.check store with
  | error e =>
    rw [hcheck] at h
    cases h
  | ok _ =>
    rw [hcheck] at h
    exact ⟨rfl, by rw [← Except.ok.inj h]⟩

theorem exists_shown_unpaged {params : Entries Value} {base s : Select}
    (hs : refine o params base = .ok s) (hcheck : s.check store = .ok ()) :
    ∃ here, shown store o.unpaged params base = .ok here ∧ here.rows = s.rowsOf store := by
  rw [shown_unpaged_eq, hs]
  simp [Except.bind, hcheck, Except.map]

/-! ### One more clause -/

theorem check_all (m : Model) (store : Store) : (Select.all m).check store = .ok () :=
  (check_eq_ok_iff _ _).2 ⟨nofun, nofun, rfl, fun ⟨_, _, hmet⟩ => Bool.false_ne_true hmet⟩

section Clause

variable {base : Select} {clause : Clause}

/-- A statement with a further clause on columns, whose parameters are bound, runs exactly when the
statement does and no row comes to a pattern of the clause that is too complex. -/
theorem check_extended_iff (hbinds : ∀ p ∈ clause.parameters, Binds p)
    (hterms : ∀ t ∈ clause.terms, ∃ d, t = .column d) :
    (extended base [clause] []).check store = .ok () ↔ base.check store = .ok () ∧
      ¬ (clause.isTooComplex = true ∧ ∃ r ∈ base.source store,
        base.clauses.all (Clause.holds base.model? r) = true) := by
  have hparameters : (∀ p ∈ (extended base [clause] []).parameters, Binds p) ↔
      ∀ p ∈ base.parameters, Binds p := by
    have hsplit : (extended base [clause] []).parameters =
        base.clauses.flatMap Clause.parameters ++ clause.parameters ++ base.windowParameters := by
      simp [parameters, extended, windowParameters, isWindowed]
    rw [hsplit, parameters]
    simp only [List.forall_mem_append, and_iff_left hbinds]
  have hnames : (extended base [clause] []).unknownName? = none ↔ base.unknownName? = none := by
    have hknown : ∀ t ∈ clause.terms, (t.meaning? base.model?).isSome := by
      intro t ht
      obtain ⟨d, rfl⟩ := hterms t ht
      rfl
    simp only [unknownName?_eq_none_iff, extended, List.flatMap_append, List.append_nil,
      List.flatMap_singleton, List.forall_mem_append, and_iff_left hknown]
  have hmet : (extended base [clause] []).MeetsComplexPattern store ↔
      base.MeetsComplexPattern store ∨ clause.isTooComplex = true ∧ ∃ r ∈ base.source store,
        base.clauses.all (Clause.holds base.model? r) = true := by
    unfold MeetsComplexPattern
    simp only [extended, source, meetsComplexPattern_append_singleton, Bool.or_eq_true,
      Bool.and_eq_true, and_or_left, exists_or]
    refine or_congr Iff.rfl ?_
    constructor
    · rintro ⟨r, hr, hholds, hcomplex⟩
      exact ⟨hcomplex, r, hr, hholds⟩
    · rintro ⟨hcomplex, r, hr, hholds⟩
      exact ⟨r, hr, hholds, hcomplex⟩
  have houtput : (extended base [clause] []).output = base.output := rfl
  rw [check_eq_ok_iff, check_eq_ok_iff, hparameters, hnames, hmet, houtput, not_or]
  simp only [and_assoc]
theorem check_extended (hcheck : base.check store = .ok ())
    (hbinds : ∀ p ∈ clause.parameters, Binds p) (hterms : ∀ t ∈ clause.terms, ∃ d, t = .column d)
    (hsimple : clause.isTooComplex = false) : (extended base [clause] []).check store = .ok () :=
  (check_extended_iff hbinds hterms).2 ⟨hcheck, by simp [hsimple]⟩

/-- A further clause selects from the rows of a statement and leaves them in their order. -/
theorem rowsOf_extended (hbase : base.isWindowed = false) (clause : Clause) (store : Store) :
    (extended base [clause] []).rowsOf store =
      (base.rowsOf store).filter (clause.holds base.model?) := by
  have hsorted : ∀ rows, (extended base [clause] []).sorted rows = base.sorted rows := by
    intro rows
    simp [sorted, extended]
  have hmatching : ∀ rows, (extended base [clause] []).matching rows =
      (base.matching rows).filter (clause.holds base.model?) := by
    intro rows
    simp [matching, extended, List.filter_filter, Bool.and_comm]
  rw [rowsOf, rowsOf, windowed_of_not_isWindowed hbase,
    windowed_of_not_isWindowed (by simpa using hbase), hsorted, hmatching, sorted_filter]
  rfl

theorem mem_rowsOf_extended (hbase : base.isWindowed = false) {row : Row} :
    row ∈ (extended base [clause] []).rowsOf store ↔
      row ∈ base.rowsOf store ∧ clause.holds base.model? row = true := by
  rw [rowsOf_extended hbase, List.mem_filter]

end Clause

section Filters

variable (hon : o.filtering.enabled = true) (hfield : field ∈ o.filtering.fields)
  (hcolumn : m.column? field = some c)
include hon hfield hcolumn

/-- A statement without a window gets the clause of the filter and nothing else. -/
theorem refine_filterBy {base : Select} (hbase : base.isWindowed = false)
    (hmodel : base.model? = some m) {operand coerced : Operand} {clause : Clause}
    (hoperand : Condition.operand? op v = some operand)
    (hcoerced : coerceOperand (.column c) operand = .ok coerced)
    (hclause : clauseOf (.column c) op coerced = .ok clause) :
    refine o (filterBy o field op v) base = .ok (extended base [clause] []) := by
  have hterm : Term.ofField (some m) field = .column c := by simp [Term.ofField, hcolumn]
  have hbuilt : clauseOfCondition (some m) ⟨field, op, operand⟩ = .ok clause := by
    rw [clauseOfCondition, hterm]
    exact bind_eq_ok_iff.2 ⟨coerced, hcoerced, hclause⟩
  rw [refine_eq_ok_iff hbase, conditions_filterBy hon hfield hoperand, searchClauses_filterBy,
    orderTerms_filterBy, hmodel]
  refine ⟨[clause], ?_, rfl⟩
  rw [List.mapM_cons, List.mapM_nil]
  exact bind_eq_ok_iff.2 ⟨clause, hbuilt, rfl⟩

/-- A filter that runs selects the rows that satisfy its clause, and binds the parameters of the
clause. -/
theorem rows_of_selects {operand : Operand}
    (hoperand : Condition.operand? op v = some operand) (h : Selects store o m field op v rows) :
    ∃ coerced clause, coerceOperand (.column c) operand = .ok coerced ∧
      clauseOf (.column c) op coerced = .ok clause ∧ (∀ p ∈ clause.parameters, Binds p) ∧
        rows = (store.rows m).filter (clause.holds (some m)) := by
  obtain ⟨here, hshown, rfl⟩ := h
  obtain ⟨s, hs, hcheck, hrows⟩ := of_shown_unpaged hshown
  obtain ⟨clauses, hclauses, rfl⟩ := (refine_eq_ok_iff rfl).1 hs
  rw [conditions_filterBy hon hfield hoperand, List.mapM_cons, List.mapM_nil] at hclauses
  obtain ⟨clause, hclause, hclauses⟩ := bind_eq_ok_iff.1 hclauses
  cases hclauses
  obtain ⟨coerced, hcoerced, hclause⟩ := bind_eq_ok_iff.1 hclause
  have hterm : Term.ofField (some m) field = .column c := by simp [Term.ofField, hcolumn]
  have hmodel : (Select.all m).model? = some m := rfl
  rw [hmodel, hterm] at hcoerced hclause
  rw [searchClauses_filterBy, orderTerms_filterBy, List.append_nil] at hcheck hrows
  refine ⟨coerced, clause, hcoerced, hclause, ?_, ?_⟩
  · intro p hp
    refine ((check_eq_ok_iff _ store).1 hcheck).2.1 p ?_
    simp [parameters, extended, Select.all, hp]
  · rw [← hrows]
    simp [rowsOf, windowed, sorted, matching, source, extended, Select.all]

/-- A filter whose clause is built and bound selects the rows that satisfy the clause. -/
theorem selects_of_clauseOf {operand coerced : Operand} {clause : Clause}
    (hoperand : Condition.operand? op v = some operand)
    (hcoerced : coerceOperand (.column c) operand = .ok coerced)
    (hclause : clauseOf (.column c) op coerced = .ok clause)
    (hbinds : ∀ p ∈ clause.parameters, Binds p) (hsimple : clause.isTooComplex = false) :
    Selects store o m field op v ((store.rows m).filter (clause.holds (some m))) := by
  have hbase : (Select.all m).isWindowed = false := rfl
  have hrefine := refine_filterBy hon hfield hcolumn hbase rfl hoperand hcoerced hclause
  have hterms : ∀ t ∈ clause.terms, ∃ d, t = .column d := by
    rw [terms_of_clauseOf hclause]
    exact fun t ht => ⟨c, List.mem_singleton.1 ht⟩
  obtain ⟨here, hshown, hrows⟩ :=
    exists_shown_unpaged hrefine (check_extended (check_all m store) hbinds hterms hsimple)
  refine ⟨here, hshown, ?_⟩
  rw [hrows]
  simp [rowsOf, windowed, sorted, matching, source, extended, Select.all]

end Filters

/-! ### Operands -/

/-- Whether the cell of a row stands to the operand of a value as a comparison says. -/
def stands (c : Column) (cmp : Comparison) (x : Value) (r : Row) : Bool :=
  c.kind.affinity.compares cmp (r.cell c.name) (Clause.operandCell c.kind x)

/-- The order in which the cell of a row stands to the operand of a value. -/
def standing (c : Column) (x : Value) (r : Row) : Ordering :=
  (r.cell c.name).order (c.kind.affinity.compared (Clause.operandCell c.kind x))

theorem stands_eq {x : Value} (hx : (Clause.operandCell c.kind x).isNull = false)
    (cmp : Comparison) (r : Row) :
    stands c cmp x r = (isPresent c r && cmp.admits (standing c x r)) := by
  simp [stands, standing, isPresent, Affinity.compares, hx]

/-- The comparison that an operator makes with one value. -/
def comparison? : Operator → Option Comparison
  | .eq => some .equal
  | .neq => some .unequal
  | .gt => some .greater
  | .gte => some .greaterEqual
  | .lt => some .less
  | .lte => some .lessEqual
  | .isIn | .notIn => none

theorem equality_eq_compare {t : Term} {x : Value} (hx : x.hasNoOrder = false) :
    equality t x = .compare t .equal x ∧ inequality t x = .compare t .unequal x := by
  cases x with
  | null | bool => cases hx
  | _ => exact ⟨rfl, rfl⟩

theorem ordering_eq_compare {t : Term} {x : Value} (hx : x.hasNoOrder = false) (cmp : Comparison) :
    ordering t cmp x = .ok (.compare t cmp x) := by
  cases x with
  | null | bool => cases hx
  | _ => rfl

theorem clauseOf_one_eq {cmp : Comparison} (hop : comparison? op = some cmp) {t : Term} {x : Value}
    (hx : x.hasNoOrder = false) : clauseOf t op (.one x) = .ok (.compare t cmp x) := by
  cases op <;> cases hop
  · rw [clauseOf, (equality_eq_compare hx).1]
  · rw [clauseOf, (equality_eq_compare hx).2]
  all_goals exact ordering_eq_compare hx _

/-- The clause of one value compares the cells of the rows with its operand. -/
theorem holds_of_clauseOf_one {cmp : Comparison} (hop : comparison? op = some cmp) {x : Value}
    (hx : Typed c.kind x) {clause : Clause} (h : clauseOf (.column c) op (.one x) = .ok clause)
    (hbinds : ∀ p ∈ clause.parameters, Binds p) :
    clause.holds (some m) = stands c cmp x ∧ (Clause.operandCell c.kind x).isNull = false := by
  cases hx' : x.hasNoOrder with
  | false =>
    rw [clauseOf_one_eq hop hx'] at h
    cases h
    exact ⟨rfl, Clause.isNull_operandCell hx (hbinds _ List.mem_cons_self)⟩
  | true =>
    cases x with
    | bool b =>
      have hcell := Clause.operandCell_bool hx
      refine ⟨?_, by rw [hcell]; rfl⟩
      unfold stands
      rw [hcell]
      cases op <;> cases hop <;> cases h <;> rfl
    | null => cases Clause.isNull_of_typed hx
    | _ => cases hx'

/-! ### Values that fit a column -/

/-- Whether a value is a text with a comma, which equality takes for several values. -/
def hasComma : Value → Bool
  | .text s => s.toList.contains ','
  | _ => false

/-- A value for the filters on a column: coercion makes it an instance of the values of the column
that is a number where numbers are asked for. Null is no instance of any values. -/
def Fits (c : Column) (v : Value) : Prop :=
  ∃ x, coerce c.kind v = .ok x ∧ isInstance c.kind x = true ∧ x.isNan = false

theorem Fits.exists_typed (h : Fits c v) : ∃ x, coerce c.kind v = .ok x ∧ Typed c.kind x := by
  obtain ⟨x, hx, hinstance, hnumber⟩ := h
  exact ⟨x, hx, typed_of_coerce hx hinstance hnumber⟩

theorem Fits.isNested (h : Fits c v) : v.isNested = false := by
  obtain ⟨x, hx, hinstance, -⟩ := h
  exact isNested_of_isInstance hx hinstance

/-- One value that fits is one operand, unless it is a text with a comma for an equality. -/
theorem Fits.operand?_one (h : Fits c v) {cmp : Comparison} (hop : comparison? op = some cmp)
    (hcomma : op = .eq ∨ op = .neq → hasComma v = false) :
    Condition.operand? op v = some (.one v) := by
  have hnested := h.isNested
  have hmap : v.isMap = false := by cases v <;> first | rfl | cases hnested
  have hitems : v.items? = none := by cases v <;> first | rfl | cases hnested
  have hsplit : op = .eq ∨ op = .neq → Condition.splitOperand v = .one v := by
    intro heq
    have hplain := hcomma heq
    cases v with
    | text s =>
      have hs : s.toList.contains ',' = false := hplain
      simp only [Condition.splitOperand, hs]
      rfl
    | _ => rfl
  have hshape : Condition.shape? op v = some (.one v) := by
    unfold Condition.shape?
    rw [hmap, hitems]
    cases op <;> cases hop
    · simp [hsplit (.inl rfl)]
    · simp [hsplit (.inr rfl)]
    all_goals rfl
  simp [Condition.operand?, hshape]

theorem operand?_list {vs : List Value} (hvs : ∀ v ∈ vs, Fits c v) (hop : op = .isIn ∨ op = .notIn) :
    Condition.operand? op (.list vs) = some (.many vs) := by
  have hnested : vs.any Value.isNested = false := by
    rw [List.any_eq_false]
    intro v hv
    simp [(hvs v hv).isNested]
  rcases hop with rfl | rfl <;>
    simp [Condition.operand?, Condition.shape?, Value.isMap, Value.items?, hnested]

/-- Values that fit have counterparts of the type of the column. -/
theorem exists_operands {vs : List Value} (hvs : ∀ v ∈ vs, Fits c v) :
    ∃ xs, vs.mapM (coerceFor (.column c)) = .ok xs ∧ ∀ x ∈ xs, Typed c.kind x := by
  have hall : ∀ v ∈ vs, ∃ x, coerceFor (.column c) v = .ok x := by
    intro v hv
    obtain ⟨x, hx, -⟩ := (hvs v hv).exists_typed
    exact ⟨x, by rw [coerceFor_column, hx, mapError_ok]⟩
  obtain ⟨xs, hxs⟩ := (mapM_ok_iff _ vs).2 hall
  refine ⟨xs, hxs, ?_⟩
  intro x hx
  obtain ⟨v, hv, hvx⟩ := exists_of_mem_mapM hxs hx
  obtain ⟨y, hy, htyped⟩ := (hvs v hv).exists_typed
  rw [coerceFor_column, hy, mapError_ok] at hvx
  exact Except.ok.inj hvx ▸ htyped

theorem operands_ne_nil {vs xs : List Value} (hne : vs ≠ [])
    (hxs : vs.mapM (coerceFor (.column c)) = .ok xs) : xs ≠ [] := by
  obtain ⟨v, hv⟩ := List.exists_mem_of_ne_nil vs hne
  obtain ⟨x, hx, -⟩ := exists_mem_of_mapM hxs hv
  exact List.ne_nil_of_mem hx

/-! ### What an operator selects -/

section Rows

variable (hon : o.filtering.enabled = true) (hfield : field ∈ o.filtering.fields)
  (hcolumn : m.column? field = some c)
include hon hfield hcolumn

/-- With one value an operator selects the rows that stand to its operand as it says. -/
theorem rows_of_one {cmp : Comparison} (hop : comparison? op = some cmp) (hv : Fits c v)
    (hcomma : op = .eq ∨ op = .neq → hasComma v = false) {x : Value} (hx : coerce c.kind v = .ok x)
    (h : Selects store o m field op v rows) :
    rows = (store.rows m).filter (stands c cmp x) ∧
      (Clause.operandCell c.kind x).isNull = false := by
  obtain ⟨y, hy, htyped⟩ := hv.exists_typed
  obtain rfl : x = y := Except.ok.inj (hx.symm.trans hy)
  obtain ⟨coerced, clause, hcoerced, hclause, hbinds, hrows⟩ :=
    rows_of_selects hon hfield hcolumn (hv.operand?_one hop hcomma) h
  have hone : coerced = .one x := by
    rw [coerceOperand, coerceFor_column, hx] at hcoerced
    exact (Except.ok.inj hcoerced).symm
  rw [hone] at hclause
  obtain ⟨hholds, hcell⟩ := holds_of_clauseOf_one (m := m) hop htyped hclause hbinds
  rw [hrows, hholds]
  exact ⟨rfl, hcell⟩

variable {vs xs : List Value} (hvs : ∀ v ∈ vs, Fits c v)
  (hxs : vs.mapM (coerceFor (.column c)) = .ok xs)
include hvs hxs

theorem clause_of_list (hop : op = .isIn ∨ op = .notIn)
    (h : Selects store o m field op (.list vs) rows) :
    ∃ clause, clauseOf (.column c) op (.many xs) = .ok clause ∧ (∀ p ∈ clause.parameters, Binds p) ∧
      rows = (store.rows m).filter (clause.holds (some m)) := by
  obtain ⟨coerced, clause, hcoerced, hclause, hbinds, hrows⟩ :=
    rows_of_selects hon hfield hcolumn (operand?_list hvs hop) h
  have hmany : coerced = .many xs := by
    rw [coerceOperand, hxs] at hcoerced
    exact (Except.ok.inj hcoerced).symm
  rw [hmany] at hclause
  exact ⟨clause, hclause, hbinds, hrows⟩

variable (htyped : ∀ x ∈ xs, Typed c.kind x)
include htyped

theorem rows_of_isIn (h : Selects store o m field .isIn (.list vs) rows) :
    rows = (store.rows m).filter (fun r => xs.any fun x => stands c .equal x r) ∧
      ∀ x ∈ xs, (Clause.operandCell c.kind x).isNull = false := by
  obtain ⟨clause, hclause, hbinds, hrows⟩ := clause_of_list hon hfield hcolumn hvs hxs (.inl rfl) h
  cases hclause
  refine ⟨?_, fun x hx => (Clause.boundCell_listType htyped hbinds hx).2⟩
  rw [hrows]
  simp only [Clause.holds, Clause.boundCells_isIn htyped hbinds, List.any_map]
  rfl

theorem rows_of_notIn (h : Selects store o m field .notIn (.list vs) rows) :
    rows = (store.rows m).filter (fun r => xs.all fun x => stands c .unequal x r) ∧
      ∀ x ∈ xs, (Clause.operandCell c.kind x).isNull = false := by
  obtain ⟨clause, hclause, hbinds, hrows⟩ := clause_of_list hon hfield hcolumn hvs hxs (.inr rfl) h
  cases hclause
  have hcells : (Clause.notIn (.column c) xs).boundCells = xs.map (Clause.operandCell c.kind) :=
    Clause.boundCells_isIn htyped hbinds
  refine ⟨?_, fun x hx => (Clause.boundCell_listType htyped hbinds hx).2⟩
  rw [hrows]
  simp only [Clause.holds, hcells, List.all_map]
  rfl

end Rows

end TableApi.Listing
