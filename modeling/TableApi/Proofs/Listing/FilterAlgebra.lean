import TableApi.Proofs.Listing.FilteredRows

/-! The algebra of the filter operators. All filters on a column with one value compare the cells of
the rows with one and the same cell, and none of them selects a row without a value, so opposite
operators part the rows with a value between them. -/

namespace TableApi.Listing

open Coercion Select

variable {store : Store} {o : Options} {m : Model} {field : String} {c : Column} {op : Operator}
  {v : Value}

/-! ### Opposite selections -/

/-- Two selections part the rows of a table between them when each row is in one of them and none is
in both. -/
structure Parts (rows as bs : List Row) : Prop where
  left : as = rows.filter (· ∈ as)
  right : bs = rows.filter (· ∉ as)

theorem parts_filter (table : List Row) (p q : Row → Bool) :
    Parts (table.filter p) (table.filter fun r => p r && q r)
      (table.filter fun r => p r && !q r) := by
  have hmem : ∀ r ∈ table, (r ∈ table.filter fun r => p r && q r) ↔ (p r && q r) = true := by
    intro r hr
    simp [hr]
  constructor
  · rw [List.filter_filter]
    apply List.filter_congr
    intro r hr
    simp only [hmem r hr]
    cases p r <;> cases q r <;> rfl
  · rw [List.filter_filter]
    apply List.filter_congr
    intro r hr
    simp only [hmem r hr]
    cases p r <;> cases q r <;> rfl

/-- The comparison that holds where another does not. -/
def opposite : Comparison → Comparison
  | .equal => .unequal
  | .unequal => .equal
  | .greater => .lessEqual
  | .greaterEqual => .less
  | .less => .greaterEqual
  | .lessEqual => .greater

theorem admits_opposite (cmp : Comparison) (order : Ordering) :
    (opposite cmp).admits order = !cmp.admits order := by
  cases cmp <;> cases order <;> rfl

theorem parts_opposite (table : List Row) {x : Value}
    (hx : (Clause.operandCell c.kind x).isNull = false) (cmp : Comparison) :
    Parts (table.filter (isPresent c)) (table.filter (stands c cmp x))
      (table.filter (stands c (opposite cmp) x)) := by
  have hstands : stands c cmp x = fun r => isPresent c r && cmp.admits (standing c x r) :=
    funext (stands_eq hx cmp)
  have hopposite : stands c (opposite cmp) x =
      fun r => isPresent c r && !cmp.admits (standing c x r) := by
    funext r
    rw [stands_eq hx, admits_opposite]
  rw [hstands, hopposite]
  exact parts_filter table _ _

section Lists

variable {xs : List Value} (hxs : ∀ x ∈ xs, (Clause.operandCell c.kind x).isNull = false)
include hxs

theorem any_stands (r : Row) : (xs.any fun x => stands c .equal x r) =
    (isPresent c r && xs.any fun x => Comparison.equal.admits (standing c x r)) := by
  rw [Bool.eq_iff_iff]
  simp only [List.any_eq_true, Bool.and_eq_true]
  constructor
  · rintro ⟨x, hx, hstands⟩
    rw [stands_eq (hxs x hx), Bool.and_eq_true] at hstands
    exact ⟨hstands.1, x, hx, hstands.2⟩
  · rintro ⟨hpresent, x, hx, hadmits⟩
    refine ⟨x, hx, ?_⟩
    rw [stands_eq (hxs x hx), hpresent, hadmits]
    rfl

/-- A row without a value differs from no operand, so it is selected only when there is none. -/
theorem all_stands (hne : xs ≠ []) (r : Row) : (xs.all fun x => stands c .unequal x r) =
    (isPresent c r && !xs.any fun x => Comparison.equal.admits (standing c x r)) := by
  have hunequal : ∀ x ∈ xs, stands c .unequal x r =
      (isPresent c r && !Comparison.equal.admits (standing c x r)) := by
    intro x hx
    rw [stands_eq (hxs x hx), ← admits_opposite]
    rfl
  rw [Bool.eq_iff_iff]
  simp only [List.all_eq_true, Bool.and_eq_true, Bool.not_eq_true', List.any_eq_false]
  constructor
  · intro hall
    obtain ⟨first, hfirst⟩ := List.exists_mem_of_ne_nil xs hne
    have hpresent := hall first hfirst
    rw [hunequal first hfirst, Bool.and_eq_true] at hpresent
    refine ⟨hpresent.1, fun x hx => ?_⟩
    have hx' := hall x hx
    rw [hunequal x hx, Bool.and_eq_true] at hx'
    simpa using hx'.2
  · rintro ⟨hpresent, hnone⟩ x hx
    rw [hunequal x hx, hpresent]
    simpa using hnone x hx

end Lists

/-! ### The laws -/

/-- What the operators select from the rows of a table by a column, where `selects op v rows` says
that the filter by `op` with `v` runs and selects `rows`. The filters of order do not run with truth
values. -/
structure FilterAlgebra (table : List Row) (c : Column)
    (selects : Operator → Value → List Row → Prop) : Prop where
  equal_unequal : ∀ v, Fits c v → hasComma v = false → ∀ as bs, selects .eq v as →
    selects .neq v bs → Parts (table.filter (isPresent c)) as bs
  greater_lessEqual : ∀ v, Fits c v → ∀ as bs, selects .gt v as → selects .lte v bs →
    Parts (table.filter (isPresent c)) as bs
  less_greaterEqual : ∀ v, Fits c v → ∀ as bs, selects .lt v as → selects .gte v bs →
    Parts (table.filter (isPresent c)) as bs
  greaterEqual : ∀ v, Fits c v → hasComma v = false → ∀ as bs cs, selects .gte v as →
    selects .gt v bs → selects .eq v cs → as = table.filter fun r => r ∈ bs ∨ r ∈ cs
  isIn : ∀ vs, (∀ v ∈ vs, Fits c v ∧ hasComma v = false) → ∀ as (each : Value → List Row),
    selects .isIn (.list vs) as → (∀ v ∈ vs, selects .eq v (each v)) →
      as = table.filter fun r => ∃ v ∈ vs, r ∈ each v
  notIn : ∀ vs, vs ≠ [] → (∀ v ∈ vs, Fits c v) → ∀ as bs, selects .isIn (.list vs) as →
    selects .notIn (.list vs) bs → Parts (table.filter (isPresent c)) as bs
  present_of_one : ∀ op, op ≠ .isIn → op ≠ .notIn → ∀ v, Fits c v →
    (op = .eq ∨ op = .neq → hasComma v = false) → ∀ as, selects op v as →
      ∀ r ∈ as, isPresent c r = true
  present_of_list : ∀ op vs, op = .isIn ∨ op = .notIn ∧ vs ≠ [] → (∀ v ∈ vs, Fits c v) →
    ∀ as, selects op (.list vs) as → ∀ r ∈ as, isPresent c r = true
  null : selects .eq .null (table.filter fun r => !isPresent c r) ∧
    selects .neq .null (table.filter (isPresent c))

section Laws

variable (hon : o.filtering.enabled = true) (hfield : field ∈ o.filtering.fields)
  (hcolumn : m.column? field = some c)
include hon hfield hcolumn

theorem parts_of_selects {op' : Operator} {cmp : Comparison} (hop : comparison? op = some cmp)
    (hop' : comparison? op' = some (opposite cmp)) (hv : Fits c v)
    (hcomma : op = .eq ∨ op = .neq → hasComma v = false)
    (hcomma' : op' = .eq ∨ op' = .neq → hasComma v = false) {as bs : List Row}
    (ha : Selects store o m field op v as) (hb : Selects store o m field op' v bs) :
    Parts ((store.rows m).filter (isPresent c)) as bs := by
  obtain ⟨x, hx, -⟩ := hv.exists_typed
  obtain ⟨rfl, hcell⟩ := rows_of_one hon hfield hcolumn hop hv hcomma hx ha
  obtain ⟨rfl, -⟩ := rows_of_one hon hfield hcolumn hop' hv hcomma' hx hb
  exact parts_opposite (store.rows m) hcell cmp

/-- The operators of equality ask for null by itself, whatever the column. -/
theorem selects_null :
    Selects store o m field .eq .null ((store.rows m).filter fun r => !isPresent c r) ∧
      Selects store o m field .neq .null ((store.rows m).filter (isPresent c)) := by
  have hnull : coerceOperand (.column c) (.one .null) = .ok (.one .null) := rfl
  have habsent : (Clause.isNull (.column c)).holds (some m) = fun r => !isPresent c r := by
    funext r
    rw [isPresent, Bool.not_not]
    rfl
  have hpresent : (Clause.isNotNull (.column c)).holds (some m) = isPresent c := rfl
  rw [← habsent, ← hpresent]
  constructor
  · exact selects_of_clauseOf hon hfield hcolumn rfl hnull rfl
      (fun _ hp => absurd hp List.not_mem_nil) rfl
  · exact selects_of_clauseOf hon hfield hcolumn rfl hnull rfl
      (fun _ hp => absurd hp List.not_mem_nil) rfl

theorem rows_of_greaterEqual (hv : Fits c v) (hcomma : hasComma v = false) {as bs cs : List Row}
    (ha : Selects store o m field .gte v as) (hb : Selects store o m field .gt v bs)
    (hc : Selects store o m field .eq v cs) :
    as = (store.rows m).filter fun r => r ∈ bs ∨ r ∈ cs := by
  obtain ⟨x, hx, -⟩ := hv.exists_typed
  obtain ⟨rfl, hcell⟩ := rows_of_one hon hfield hcolumn rfl hv (by simp) hx ha
  obtain ⟨rfl, -⟩ := rows_of_one hon hfield hcolumn rfl hv (by simp) hx hb
  obtain ⟨rfl, -⟩ := rows_of_one hon hfield hcolumn rfl hv (fun _ => hcomma) hx hc
  have hadmits : ∀ order, Comparison.greaterEqual.admits order =
      (Comparison.greater.admits order || Comparison.equal.admits order) := by
    intro order
    cases order <;> rfl
  apply List.filter_congr
  intro r hr
  rw [Bool.eq_iff_iff, decide_eq_true_iff, List.mem_filter, List.mem_filter, stands_eq hcell,
    stands_eq hcell, stands_eq hcell, hadmits]
  simp only [hr, true_and, Bool.and_eq_true, Bool.or_eq_true]
  exact and_or_left

variable {vs : List Value}

/-- Being among values is being equal to one of them. -/
theorem rows_of_isIn_eq_union (hvs : ∀ v ∈ vs, Fits c v ∧ hasComma v = false) {as : List Row}
    {each : Value → List Row} (ha : Selects store o m field .isIn (.list vs) as)
    (heach : ∀ v ∈ vs, Selects store o m field .eq v (each v)) :
    as = (store.rows m).filter fun r => ∃ v ∈ vs, r ∈ each v := by
  have hfits : ∀ v ∈ vs, Fits c v := fun v hv => (hvs v hv).1
  obtain ⟨xs, hxs, htyped⟩ := exists_operands hfits
  obtain ⟨rfl, -⟩ := rows_of_isIn hon hfield hcolumn hfits hxs htyped ha
  have hequal : ∀ v ∈ vs, ∀ x, coerce c.kind v = .ok x →
      each v = (store.rows m).filter (stands c .equal x) := by
    intro v hv x hx
    exact (rows_of_one hon hfield hcolumn rfl (hfits v hv) (fun _ => (hvs v hv).2) hx
      (heach v hv)).1
  have hcoerce : ∀ {v x}, coerceFor (.column c) v = .ok x → coerce c.kind v = .ok x := by
    intro v x h
    rw [coerceFor_column] at h
    exact mapError_eq_ok_iff.1 h
  apply List.filter_congr
  intro r hr
  rw [Bool.eq_iff_iff, List.any_eq_true, decide_eq_true_iff]
  constructor
  · rintro ⟨x, hx, hstands⟩
    obtain ⟨v, hv, hvx⟩ := exists_of_mem_mapM hxs hx
    exact ⟨v, hv, by rw [hequal v hv x (hcoerce hvx)]; exact List.mem_filter.2 ⟨hr, hstands⟩⟩
  · rintro ⟨v, hv, hmem⟩
    obtain ⟨x, hx, hvx⟩ := exists_mem_of_mapM hxs hv
    rw [hequal v hv x (hcoerce hvx)] at hmem
    exact ⟨x, hx, (List.mem_filter.1 hmem).2⟩

theorem parts_of_lists (hne : vs ≠ []) (hvs : ∀ v ∈ vs, Fits c v) {as bs : List Row}
    (ha : Selects store o m field .isIn (.list vs) as)
    (hb : Selects store o m field .notIn (.list vs) bs) :
    Parts ((store.rows m).filter (isPresent c)) as bs := by
  obtain ⟨xs, hxs, htyped⟩ := exists_operands hvs
  obtain ⟨rfl, hcells⟩ := rows_of_isIn hon hfield hcolumn hvs hxs htyped ha
  obtain ⟨rfl, -⟩ := rows_of_notIn hon hfield hcolumn hvs hxs htyped hb
  simp only [any_stands hcells, all_stands hcells (operands_ne_nil hne hxs)]
  exact parts_filter (store.rows m) _ _

theorem isPresent_of_one (hin : op ≠ .isIn) (hnot : op ≠ .notIn) (hv : Fits c v)
    (hcomma : op = .eq ∨ op = .neq → hasComma v = false) {as : List Row}
    (ha : Selects store o m field op v as) : ∀ r ∈ as, isPresent c r = true := by
  obtain ⟨cmp, hop⟩ : ∃ cmp, comparison? op = some cmp := by
    cases op <;> first | exact ⟨_, rfl⟩ | contradiction
  obtain ⟨x, hx, -⟩ := hv.exists_typed
  obtain ⟨rfl, hcell⟩ := rows_of_one hon hfield hcolumn hop hv hcomma hx ha
  intro r hr
  have hstands := (List.mem_filter.1 hr).2
  rw [stands_eq hcell, Bool.and_eq_true] at hstands
  exact hstands.1

theorem isPresent_of_list (hop : op = .isIn ∨ op = .notIn ∧ vs ≠ []) (hvs : ∀ v ∈ vs, Fits c v)
    {as : List Row} (ha : Selects store o m field op (.list vs) as) :
    ∀ r ∈ as, isPresent c r = true := by
  obtain ⟨xs, hxs, htyped⟩ := exists_operands hvs
  intro r hr
  rcases hop with rfl | ⟨rfl, hne⟩
  · obtain ⟨rfl, hcells⟩ := rows_of_isIn hon hfield hcolumn hvs hxs htyped ha
    have hstands := (List.mem_filter.1 hr).2
    rw [any_stands hcells, Bool.and_eq_true] at hstands
    exact hstands.1
  · obtain ⟨rfl, hcells⟩ := rows_of_notIn hon hfield hcolumn hvs hxs htyped ha
    have hstands := (List.mem_filter.1 hr).2
    rw [all_stands hcells (operands_ne_nil hne hxs), Bool.and_eq_true] at hstands
    exact hstands.1

/-- The filter operators form an algebra over the rows of the table, whatever the rows are, the
column is and the options else say. -/
theorem filters_form_algebra (store : Store) :
    FilterAlgebra (store.rows m) c (Selects store o m field) where
  equal_unequal _ hv hcomma _ _ :=
    parts_of_selects hon hfield hcolumn rfl rfl hv (fun _ => hcomma) (fun _ => hcomma)
  greater_lessEqual _ hv _ _ := parts_of_selects hon hfield hcolumn rfl rfl hv (by simp) (by simp)
  less_greaterEqual _ hv _ _ := parts_of_selects hon hfield hcolumn rfl rfl hv (by simp) (by simp)
  greaterEqual _ hv hcomma _ _ _ := rows_of_greaterEqual hon hfield hcolumn hv hcomma
  isIn _ hvs _ _ := rows_of_isIn_eq_union hon hfield hcolumn hvs
  notIn _ hne hvs _ _ := parts_of_lists hon hfield hcolumn hne hvs
  present_of_one _ hin hnot _ hv hcomma _ := isPresent_of_one hon hfield hcolumn hin hnot hv hcomma
  present_of_list _ _ hop hvs _ := isPresent_of_list hon hfield hcolumn hop hvs
  null := selects_null hon hfield hcolumn

end Laws

def day : Column := (Column.plain "day" .date).orNull

def events : Model := ⟨"Event", "events", [(Column.plain "id" .integer).asKey, day]⟩

def threeEvents : Store :=
  [⟨events, [⟨1, [("id", .integer 1), ("day", .text "2024-05-01")]⟩,
    ⟨2, [("id", .integer 2), ("day", .text "2024-06-01")]⟩, ⟨3, [("id", .integer 3)]⟩]⟩]

def dayFilter : Options := { featuredFilter with filtering := ⟨true, "filter", ["day"]⟩ }

/-- The event after the first of May and the event on that day are the events with a day, and so are
the event that is on one of two days and the event that is on none of them. -/
theorem threeEvents_parted :
    (dayFilter.filtering.enabled = true ∧ "day" ∈ dayFilter.filtering.fields ∧
      events.column? "day" = some day) ∧
    ∃ may june : Row,
      Selects threeEvents dayFilter events "day" .gt (.text "2024-05-01") [june] ∧
      Selects threeEvents dayFilter events "day" .lte (.text "2024-05-01") [may] ∧
      Selects threeEvents dayFilter events "day" .isIn
        (.list [.text " 2024-05-01", .text "2024-05-01T20:15Z"]) [may] ∧
      Selects threeEvents dayFilter events "day" .notIn
        (.list [.text " 2024-05-01", .text "2024-05-01T20:15Z"]) [june] ∧
      Parts ((threeEvents.rows events).filter (isPresent day)) [june] [may] ∧
      Parts ((threeEvents.rows events).filter (isPresent day)) [may] [june] := by
  have hfield : "day" ∈ dayFilter.filtering.fields := by decide
  have halgebra : FilterAlgebra (threeEvents.rows events) day
      (Selects threeEvents dayFilter events "day") :=
    filters_form_algebra rfl hfield rfl threeEvents
  have hfits : ∀ v ∈ [.text "2024-05-01", .text " 2024-05-01", .text "2024-05-01T20:15Z"],
      Fits day v := by
    have hday : Calendar.Date.make? 2024 5 1 = some ⟨2024, 5, 1, by decide⟩ := rfl
    simp only [List.forall_mem_cons]
    exact ⟨⟨_, rfl, rfl, rfl⟩, ⟨_, rfl, rfl, rfl⟩, ⟨_, rfl, rfl, rfl⟩, nofun⟩
  have hafter : Selects threeEvents dayFilter events "day" .gt (.text "2024-05-01")
      [⟨2, [("id", .integer 2), ("day", .text "2024-06-01")]⟩] := ⟨_, rfl, rfl⟩
  have huntil : Selects threeEvents dayFilter events "day" .lte (.text "2024-05-01")
      [⟨1, [("id", .integer 1), ("day", .text "2024-05-01")]⟩] := ⟨_, rfl, rfl⟩
  have hin : Selects threeEvents dayFilter events "day" .isIn
      (.list [.text " 2024-05-01", .text "2024-05-01T20:15Z"])
      [⟨1, [("id", .integer 1), ("day", .text "2024-05-01")]⟩] := ⟨_, rfl, rfl⟩
  have hout : Selects threeEvents dayFilter events "day" .notIn
      (.list [.text " 2024-05-01", .text "2024-05-01T20:15Z"])
      [⟨2, [("id", .integer 2), ("day", .text "2024-06-01")]⟩] := ⟨_, rfl, rfl⟩
  refine ⟨⟨rfl, hfield, rfl⟩, _, _, hafter, huntil, hin, hout, ?_, ?_⟩
  · exact halgebra.greater_lessEqual _ (hfits _ List.mem_cons_self) _ _ hafter huntil
  · exact halgebra.notIn _ (List.cons_ne_nil _ _)
      (fun v hv => hfits v (List.mem_cons_of_mem _ hv)) _ _ hin hout

end TableApi.Listing
