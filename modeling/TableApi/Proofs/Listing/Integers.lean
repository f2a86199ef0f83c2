import TableApi.Proofs.Listing.Building
import TableApi.Proofs.Listing.Pages
import TableApi.Proofs.Listing.TextFilters
import TableApi.Proofs.Statement.Integers

/-! The integers of a listing. They come from three places: from the numerals that conditions
compare columns of integers with, from the window of the page, and from the statement that the
listing starts from. Only the offset is kept within the range of the store; numerals and page sizes
are handed over as they are. -/

namespace TableApi

open Number

/-- The integers that a condition compares with: its numerals, on a column of integers. -/
def Condition.integers (model? : Option Model) (c : Condition) : List Int :=
  if (Term.ofField model? c.field).kind? = some .integer then
    c.operand.texts.filterMap readInteger?
  else []

namespace Listing

open Coercion Select

/-- The integers of a page: its size and its offset. -/
def pageIntegers (o : Options.Pagination) (params : Entries Value) : List Int :=
  if o.enabled then
    [((Window.ofParams o params).size.val : Int), ((Window.ofParams o params).offset : Int)]
  else []

def requestedIntegers (o : Options) (params : Entries Value) (model? : Option Model) : List Int :=
  (conditions o params).flatMap (Condition.integers model?) ++ pageIntegers o.pagination params

/-! ### Operands -/

def asInteger? : Value → Option Int
  | .int n => some n
  | _ => none

theorem asInteger?_of_convert? {kind : ColumnKind} (hkind : kind ≠ .integer) {v x : Value}
    (h : convert? kind v = .ok (some x)) : asInteger? x = none := by
  cases settled_of_convert? h with
  | integer => contradiction
  | _ => rfl

/-- A text is coerced to an integer only where integers are asked for, and there by its numeral. -/
theorem asInteger?_of_coerce {kind : ColumnKind} {s : String} {v : Value}
    (h : coerce kind (.text s) = .ok v) :
    asInteger? v = if kind = .integer then readInteger? s else none := by
  by_cases hkind : kind = .integer
  · subst hkind
    have hv : ((readInteger? s).map Value.int).getD (.text s) = v := Except.ok.inj h
    rw [if_pos rfl, ← hv]
    cases readInteger? s <;> rfl
  · rw [if_neg hkind]
    rw [coerce_of_ne_null kind rfl] at h
    cases hconvert : convert? kind (.text s) with
    | error e =>
      rw [hconvert] at h
      cases h
    | ok converted? =>
      rw [hconvert] at h
      cases h
      cases converted? with
      | none => rfl
      | some x => exact asInteger?_of_convert? hkind hconvert

theorem asInteger?_of_coerceFor {t : Term} {s : String} {v : Value}
    (h : coerceFor t (.text s) = .ok v) :
    asInteger? v = if t.kind? = some .integer then readInteger? s else none := by
  cases t with
  | column c =>
    rw [asInteger?_of_coerce (mapError_eq_ok_iff.1 h)]
    simp [Term.kind?]
  | bare name =>
    cases h
    rfl

theorem integer?_asGiven (v : Value) : integer? (.asGiven, v) = asInteger? v := by
  cases v <;> rfl

theorem integer?_eq_none (type : ParameterType) {v : Value} (h : asInteger? v = none) :
    integer? (type, v) = none := by
  cases v with
  | int n => cases h
  | _ => cases type <;> rfl

theorem integer?_compared (kind? : Option ColumnKind) (v : Value) :
    integer? (.compared kind? v, v) = asInteger? v := by
  cases hv : asInteger? v with
  | none => exact integer?_eq_none _ hv
  | some n =>
    cases v <;> cases hv
    rcases kind? with _ | kind
    · rfl
    · cases kind <;> rfl

theorem compared_integer {v : Value} (hv : v = .null ∨ (∃ s, v = .text s) ∨ ∃ n, v = .int n) :
    ParameterType.compared (some .integer) v = .asGiven := by
  rcases hv with rfl | ⟨s, rfl⟩ | ⟨n, rfl⟩ <;> rfl

theorem text_or_int_of_coerceFor {t : Term} (ht : t.kind? = some .integer) {s : String} {v : Value}
    (h : coerceFor t (.text s) = .ok v) : (∃ s, v = .text s) ∨ ∃ n, v = .int n := by
  cases t with
  | bare name => cases ht
  | column c =>
    have hkind : c.kind = .integer := Option.some.inj ht
    rw [coerceFor_column, hkind] at h
    have hv : ((readInteger? s).map Value.int).getD (.text s) = v :=
      Except.ok.inj (mapError_eq_ok_iff.1 h)
    rw [← hv]
    cases readInteger? s with
    | none => exact Or.inl ⟨s, rfl⟩
    | some n => exact Or.inr ⟨n, rfl⟩

section Clauses

variable {t : Term} {texts : List String} {vs : List Value}
  (hvs : (texts.map Value.text).mapM (coerceFor t) = .ok vs)
include hvs

/-- The items of a list are handed over as the integers that they are. -/
theorem integer?_listType {v : Value} (hv : v ∈ vs) :
    integer? (Clause.listType t vs, v) = asInteger? v := by
  have hcoerced : ∀ w ∈ vs, ∃ s, coerceFor t (.text s) = .ok w := by
    intro w hw
    obtain ⟨x, hx, hxw⟩ := exists_of_mem_mapM hvs hw
    obtain ⟨s, -, rfl⟩ := List.mem_map.1 hx
    exact ⟨s, hxw⟩
  by_cases ht : t.kind? = some .integer
  · have hfirst : ∀ w, (vs.find? fun v => !v.isNull).getD .null = w →
        w = .null ∨ (∃ s, w = .text s) ∨ ∃ n, w = .int n := by
      rintro w rfl
      cases hfind : vs.find? fun v => !v.isNull with
      | none => exact Or.inl rfl
      | some first =>
        obtain ⟨s, hs⟩ := hcoerced first (List.mem_of_find?_eq_some hfind)
        exact Or.inr (text_or_int_of_coerceFor ht hs)
    rw [Clause.listType, ht, compared_integer (hfirst _ rfl), integer?_asGiven]
  · obtain ⟨s, hs⟩ := hcoerced v hv
    have hnone : asInteger? v = none := by rw [asInteger?_of_coerceFor hs, if_neg ht]
    rw [hnone, integer?_eq_none _ hnone]

theorem filterMap_asInteger? : vs.filterMap asInteger? =
    if t.kind? = some .integer then texts.filterMap readInteger? else [] := by
  have hread : ∀ x ∈ texts.map Value.text, ∀ v, coerceFor t x = .ok v →
      (asInteger? v).toList =
        (if t.kind? = some .integer then readInteger? x.plainText else none).toList := by
    intro x hx v hv
    obtain ⟨s, -, rfl⟩ := List.mem_map.1 hx
    rw [asInteger?_of_coerceFor hv]
    rfl
  rw [List.filterMap_eq_flatMap_toList, flatMap_of_mapM hvs hread, List.flatMap_map]
  split
  · rw [List.filterMap_eq_flatMap_toList]
    rfl
  · simp

theorem integers_isIn :
    (Clause.isIn t vs).integers = vs.filterMap asInteger? := by
  rw [Clause.integers, Clause.parameters, List.filterMap_map]
  exact List.filterMap_congr fun v hv => integer?_listType hvs hv

end Clauses

theorem integers_compare (t : Term) (cmp : Comparison) (v : Value) :
    (Clause.compare t cmp v).integers = (asInteger? v).toList := by
  rw [Clause.integers, Clause.parameters, List.filterMap_cons, integer?_compared]
  cases asInteger? v <;> rfl

/-- The clause of one value hands it over as the integer that it is, if any. -/
theorem integers_of_clauseOf_one {t : Term} {s : String} {v : Value}
    (hv : coerceFor t (.text s) = .ok v) {op : Operator} {clause : Clause}
    (h : clauseOf t op (.one v) = .ok clause) :
    clause.integers = (asInteger? v).toList := by
  have hequality : (equality t v).integers = (asInteger? v).toList := by
    cases v with
    | null | bool => rfl
    | _ => exact integers_compare t .equal _
  have hinequality : (inequality t v).integers = (asInteger? v).toList := by
    cases v with
    | null | bool => rfl
    | _ => exact integers_compare t .unequal _
  have hordering : ∀ cmp, ordering t cmp v = .ok clause →
      clause.integers = (asInteger? v).toList := by
    intro cmp hclause
    cases v with
    | null | bool => cases hclause
    | _ =>
      cases hclause
      exact integers_compare t cmp _
  have hsingle : (Clause.isIn t [v]).integers = (asInteger? v).toList := by
    have hvs : ([s].map Value.text).mapM (coerceFor t) = .ok [v] := by
      rw [List.map_singleton, List.mapM_cons, hv]
      rfl
    rw [integers_isIn hvs, List.filterMap_cons]
    cases asInteger? v <;> rfl
  cases op with
  | eq => exact Except.ok.inj h ▸ hequality
  | neq => exact Except.ok.inj h ▸ hinequality
  | isIn | notIn => exact Except.ok.inj h ▸ hsingle
  | gt | gte | lt | lte => exact hordering _ h

/-- The clause of a condition hands over the integers of the condition. -/
theorem integers_of_clauseOfCondition {model? : Option Model} {c : Condition} {clause : Clause}
    (htextual : c.operand.IsTextual) (h : clauseOfCondition model? c = .ok clause) :
    clause.integers = c.integers model? := by
  obtain ⟨operand, hoperand, hclause⟩ := bind_eq_ok_iff.1 h
  unfold Condition.integers
  generalize c.operand = raw at htextual hoperand
  set t := Term.ofField model? c.field
  cases htextual with
  | one s =>
    cases hv : coerceFor t (.text s) with
    | error e =>
      rw [coerceOperand, hv] at hoperand
      cases hoperand
    | ok v =>
      rw [coerceOperand, hv] at hoperand
      cases hoperand
      rw [integers_of_clauseOf_one hv hclause, asInteger?_of_coerceFor hv]
      have htexts : (Operand.one (.text s)).texts = [s] := rfl
      rw [htexts]
      split
      · rw [List.filterMap_cons]
        cases readInteger? s <;> rfl
      · rfl
  | many texts =>
    cases hvs : (texts.map Value.text).mapM (coerceFor t) with
    | error e =>
      rw [coerceOperand, hvs] at hoperand
      cases hoperand
    | ok vs =>
      rw [coerceOperand, hvs] at hoperand
      cases hoperand
      rw [Operand.texts_many, ← filterMap_asInteger? hvs, ← integers_isIn hvs]
      cases hop : c.operator <;> rw [hop] at hclause <;> cases hclause <;> rfl

/-! ### Statements -/

theorem integers_searchClauses (o : Options) (params : Entries Value) (model? : Option Model) :
    (searchClauses o params model?).flatMap Clause.integers = [] := by
  rw [List.flatMap_eq_nil_iff]
  intro clause hclause
  obtain ⟨ts, term, rfl⟩ : ∃ ts term, clause = .search ts term := by
    unfold searchClauses at hclause
    split at hclause
    · split at hclause
      · cases hclause
      · split at hclause
        · cases hclause
        · exact ⟨_, _, List.mem_singleton.1 hclause⟩
    · cases hclause
  rw [Clause.integers, List.filterMap_eq_nil_iff]
  intro p hp
  obtain ⟨t, -, rfl⟩ := List.mem_map.1 hp
  rfl

variable {o : Options} {items : List Params.Item} {base s : Select}

theorem integers_of_refine (hbase : base.isWindowed = false)
    (hs : refine o (Params.parse items) base = .ok s) :
    s.integers = base.integers ++
      (conditions o (Params.parse items)).flatMap (Condition.integers base.model?) := by
  obtain ⟨clauses, hclauses, rfl⟩ := (refine_eq_ok_iff hbase).1 hs
  have hnew : clauses.flatMap Clause.integers =
      (conditions o (Params.parse items)).flatMap (Condition.integers base.model?) :=
    flatMap_of_mapM hclauses fun c hc clause hclause =>
      integers_of_clauseOfCondition (Condition.isTextual_of_mem hc) hclause
  rw [integers_eq_flatMap hbase, integers_eq_flatMap (by simpa using hbase), extended,
    List.flatMap_append, List.flatMap_append, hnew, integers_searchClauses, List.append_nil]

/-- A page binds its size and its offset behind the parameters of the statement. -/
theorem parameters_paged (o : Options.Pagination) (params : Entries Value)
    (hs : s.isWindowed = false) :
    (paged o params s).parameters =
      s.parameters ++ (pageIntegers o params).map fun n => (.asGiven, .int n) := by
  obtain ⟨hlimit, hoffset⟩ := isWindowed_eq_false.1 hs
  unfold paged pageIntegers
  split
  · simp [parameters, windowParameters, isWindowed, hlimit, hoffset]
  · simp

theorem integers_paged (o : Options.Pagination) (params : Entries Value)
    (hs : s.isWindowed = false) :
    (paged o params s).integers = s.integers ++ pageIntegers o params := by
  have hgiven : (integer? ∘ fun n : Int => (ParameterType.asGiven, Value.int n)) = some := rfl
  rw [integers, parameters_paged o params hs, List.filterMap_append, List.filterMap_map, hgiven,
    List.filterMap_some, integers]

/-- All integers of the page of a listing. -/
theorem integers_of_page (hbase : base.isWindowed = false)
    (hs : refine o (Params.parse items) base = .ok s) :
    (paged o.pagination (Params.parse items) s).integers =
      base.integers ++ requestedIntegers o (Params.parse items) base.model? := by
  rw [integers_paged _ _ (refine_keeps hbase hs).2.2, integers_of_refine hbase hs,
    requestedIntegers, List.append_assoc]

end Listing

end TableApi
