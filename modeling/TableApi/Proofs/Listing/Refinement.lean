import TableApi.Listing.Compile
import TableApi.Proofs.Except
import TableApi.Proofs.Listing.Condition
import TableApi.Proofs.Statement.Rows

/-! What refining does to a statement. Every statement keeps its table, and one without a window
keeps its output and its missing window too; it gets the clauses of the conditions and of the search
behind its own clauses and the sort terms behind its own order. Only the clauses of conditions can
fail to be built. -/

namespace TableApi.Listing

/-- The conditions that parameters ask for, when filters are on. -/
def conditions (o : Options) (params : Entries Value) : List Condition :=
  if o.filtering.enabled then
    Condition.readAll o.filtering.fields (Params.value params o.filtering.filterParam)
  else []

theorem of_mem_conditions {o : Options} {params : Entries Value} {c : Condition}
    (h : c ∈ conditions o params) : c.field ∈ o.filtering.fields ∧ c.WellShaped := by
  unfold conditions at h
  split at h
  · exact Condition.of_mem_readAll h
  · cases h

/-- The clause that searches, when there is something to search and somewhere to look for it. -/
def searchClauses (o : Options) (params : Entries Value) (model? : Option Model) : List Clause :=
  if o.searching.enabled then
    match searchText? o.searching params with
    | none => []
    | some term =>
      match (o.searching.fields.map (Term.ofField model?)).filter isSearchable with
      | [] => []
      | ts => [.search ts term]
  else []

def orderTerms (o : Options) (params : Entries Value) (model? : Option Model) : List Ordered :=
  if o.sorting.enabled then sortTerms o.sorting params model? else []

def extended (s : Select) (clauses : List Clause) (order : List Ordered) : Select :=
  { s with clauses := s.clauses ++ clauses, order := s.order ++ order }

@[simp] theorem extended_nil (s : Select) : extended s [] [] = s := by simp [extended]

@[simp] theorem isWindowed_extended (s : Select) (clauses : List Clause) (order : List Ordered) :
    (extended s clauses order).isWindowed = s.isWindowed := rfl

@[simp] theorem extended_extended (s : Select) (cs ds : List Clause) (os ps : List Ordered) :
    extended (extended s cs os) ds ps = extended s (cs ++ ds) (os ++ ps) := by simp [extended]

theorem addClause_eq {s : Select} (h : s.isWindowed = false) (c : Clause) :
    addClause s c = .ok (extended s [c] []) := by simp [addClause, h, extended]

/-- Adding clauses one by one is building all of them and adding them together. -/
theorem foldlM_addClause_eq (cs : List Condition) {s : Select} (h : s.isWindowed = false) :
    cs.foldlM (fun s c => do addClause s (← clauseOfCondition s.model? c)) s =
      (cs.mapM (clauseOfCondition s.model?)).map fun clauses => extended s clauses [] := by
  induction cs generalizing s with
  | nil => simp [pure, Except.pure, Except.map]
  | cons c rest ih =>
    rw [List.foldlM_cons, List.mapM_cons]
    cases hc : clauseOfCondition s.model? c with
    | error e => simp [bind, Except.bind, Except.map]
    | ok clause =>
      simp only [bind, Except.bind, addClause_eq h]
      have hrest := ih (s := extended s [clause] []) (by simpa using h)
      simp only [bind, Except.bind] at hrest
      rw [hrest]
      have hmodel : (extended s [clause] []).model? = s.model? := rfl
      rw [hmodel]
      cases rest.mapM (clauseOfCondition s.model?) <;>
        simp [pure, Except.pure, Except.map]

theorem searched_eq (o : Options) (params : Entries Value) {s : Select} (h : s.isWindowed = false) :
    (if o.searching.enabled then searched o.searching params s else .ok s) =
      .ok (extended s (searchClauses o params s.model?) []) := by
  unfold searched searchClauses
  by_cases ho : o.searching.enabled
  · simp only [if_pos ho]
    cases searchText? o.searching params with
    | none => simp
    | some term =>
      cases (o.searching.fields.map (Term.ofField s.model?)).filter isSearchable with
      | nil => simp
      | cons t ts => exact addClause_eq h _
  · simp [ho]

theorem ordered_eq (o : Options) (params : Entries Value) {s : Select} (h : s.isWindowed = false) :
    (if o.sorting.enabled then ordered o.sorting params s else .ok s) =
      .ok (extended s [] (orderTerms o params s.model?)) := by
  unfold ordered orderTerms
  split
  · split <;> simp_all [extended]
  · simp

/-- The three stages, each of which may be left out. -/
theorem refine_eq_bind (o : Options) (params : Entries Value) (base : Select) :
    refine o params base =
      (if o.filtering.enabled then filtered o.filtering params base else .ok base).bind fun s =>
        (if o.searching.enabled then searched o.searching params s else .ok s).bind fun s =>
          if o.sorting.enabled then ordered o.sorting params s else .ok s := by
  unfold refine
  cases o.filtering.enabled <;> cases o.searching.enabled <;> cases o.sorting.enabled <;> rfl

/-- Refining a statement without a window in closed form. -/
theorem refine_eq (o : Options) (params : Entries Value) {base : Select}
    (h : base.isWindowed = false) :
    refine o params base =
      ((conditions o params).mapM (clauseOfCondition base.model?)).map fun clauses =>
        extended base (clauses ++ searchClauses o params base.model?)
          (orderTerms o params base.model?) := by
  have hfilter : (if o.filtering.enabled then filtered o.filtering params base else .ok base) =
      ((conditions o params).mapM (clauseOfCondition base.model?)).map fun clauses =>
        extended base clauses [] := by
    unfold filtered conditions
    split
    · exact foldlM_addClause_eq _ h
    · simp [pure, Except.pure, Except.map]
  rw [refine_eq_bind, hfilter]
  cases (conditions o params).mapM (clauseOfCondition base.model?) with
  | error e => rfl
  | ok clauses =>
    have hs : (extended base clauses []).isWindowed = false := by simpa using h
    simp only [Except.map, Except.bind, searched_eq o params hs]
    rw [ordered_eq o params (by simpa using h)]
    simp [extended]

/-- Of the parameters only the values for filters, search and order count. -/
theorem refine_congr {o : Options} {params q : Entries Value}
    (hfilter : Params.value q o.filtering.filterParam =
      Params.value params o.filtering.filterParam)
    (hsearch : Params.value q o.searching.searchParam =
      Params.value params o.searching.searchParam)
    (hsort : Params.value q o.sorting.sortParam = Params.value params o.sorting.sortParam)
    (base : Select) : refine o q base = refine o params base := by
  simp only [refine, filtered, searched, searchText?, ordered, sortTerms, hfilter, hsearch, hsort]

/-- A refined statement is the base statement with the clauses of the conditions, the search and the
order. -/
theorem refine_eq_ok_iff {o : Options} {params : Entries Value} {base s : Select}
    (hbase : base.isWindowed = false) :
    refine o params base = .ok s ↔
      ∃ clauses, (conditions o params).mapM (clauseOfCondition base.model?) = .ok clauses ∧
        extended base (clauses ++ searchClauses o params base.model?)
          (orderTerms o params base.model?) = s := by
  rw [refine_eq _ _ hbase]
  cases (conditions o params).mapM (clauseOfCondition base.model?) <;> simp [Except.map]

theorem refine_keeps {o : Options} {params : Entries Value} {base s : Select}
    (hbase : base.isWindowed = false) (hs : refine o params base = .ok s) :
    s.model? = base.model? ∧ s.output = base.output ∧ s.isWindowed = false := by
  obtain ⟨clauses, -, rfl⟩ := (refine_eq_ok_iff hbase).1 hs
  exact ⟨rfl, rfl, by simpa using hbase⟩

/-- The values for filters and search alone determine everything but the order. -/
theorem refine_eq_up_to_order {o : Options} {params q : Entries Value}
    (hfilter : Params.value q o.filtering.filterParam =
      Params.value params o.filtering.filterParam)
    (hsearch : Params.value q o.searching.searchParam =
      Params.value params o.searching.searchParam)
    {base s t : Select} (hbase : base.isWindowed = false) (hs : refine o params base = .ok s)
    (ht : refine o q base = .ok t) : ∃ order, t = { s with order } := by
  obtain ⟨clauses, hclauses, rfl⟩ := (refine_eq_ok_iff hbase).1 hs
  obtain ⟨others, hothers, rfl⟩ := (refine_eq_ok_iff hbase).1 ht
  have hconditions : conditions o q = conditions o params := by
    simp only [conditions, hfilter]
  have hsearched : searchClauses o q base.model? = searchClauses o params base.model? := by
    simp only [searchClauses, searchText?, hsearch]
  rw [hconditions, hclauses] at hothers
  cases hothers
  rw [hsearched]
  exact ⟨_, rfl⟩

/-- The page of a compiled listing is cut out of the refined statement. -/
theorem exists_refine_of_compile {store : Store} {o : Options} {params : Entries Value}
    {base : Select} {l : Listing} (h : compile store o params base = .ok l) :
    ∃ s, refine o params base = .ok s ∧ l.page = paged o.pagination params s := by
  obtain ⟨s, hs, h⟩ := bind_eq_ok_iff.1 h
  refine ⟨s, mapError_eq_ok_iff.1 hs, ?_⟩
  split at h
  · obtain ⟨total?, -, h⟩ := bind_eq_ok_iff.1 h
    cases h
    rfl
  · cases h
    rfl

/-! ### The table -/

theorem model?_of_addClause {s t : Select} {c : Clause} (h : addClause s c = .ok t) :
    t.model? = s.model? := by
  unfold addClause at h
  split at h
  · cases h
  · cases h
    rfl

theorem model?_of_filtered {o : Options.Filtering} {params : Entries Value} {s t : Select}
    (h : filtered o params s = .ok t) : t.model? = s.model? := by
  unfold filtered at h
  generalize Condition.readAll o.fields (Params.value params o.filterParam) = cs at h
  induction cs generalizing s with
  | nil =>
    cases h
    rfl
  | cons c rest ih =>
    rw [List.foldlM_cons] at h
    obtain ⟨next, hnext, hrest⟩ := bind_eq_ok_iff.1 h
    obtain ⟨clause, -, hadded⟩ := bind_eq_ok_iff.1 hnext
    rw [ih hrest, model?_of_addClause hadded]

theorem model?_of_searched {o : Options.Searching} {params : Entries Value} {s t : Select}
    (h : searched o params s = .ok t) : t.model? = s.model? := by
  unfold searched at h
  split at h
  · cases h
    rfl
  · split at h
    · cases h
      rfl
    · exact model?_of_addClause h

theorem model?_of_ordered {o : Options.Sorting} {params : Entries Value} {s t : Select}
    (h : ordered o params s = .ok t) : t.model? = s.model? := by
  unfold ordered at h
  split at h
  · cases h
    rfl
  · split at h
    · cases h
    · cases h
      rfl

/-- Every stage of refining a statement keeps its table, with and without a window. -/
theorem model?_of_refine {o : Options} {params : Entries Value} {base s : Select}
    (h : refine o params base = .ok s) : s.model? = base.model? := by
  have hstage {on : Bool} {stage : Select → Except BuildError Select}
      (hkeeps : ∀ s t, stage s = .ok t → t.model? = s.model?) {s t : Select}
      (h : (if on then stage s else .ok s) = .ok t) : t.model? = s.model? := by
    cases on with
    | true => exact hkeeps s t h
    | false =>
      cases h
      rfl
  rw [refine_eq_bind] at h
  obtain ⟨s₁, hfiltered, h⟩ := bind_eq_ok_iff.1 h
  obtain ⟨s₂, hsearched, hordered⟩ := bind_eq_ok_iff.1 h
  rw [hstage (fun _ _ => model?_of_ordered) hordered,
    hstage (fun _ _ => model?_of_searched) hsearched,
    hstage (fun _ _ => model?_of_filtered) hfiltered]

/-- The rows of a page are rows of the table of the base statement. -/
theorem mem_rows_of_page {store : Store} {o : Options} {params : Entries Value} {base : Select}
    {m : Model} (hbase : base.model? = some m) {l : Listing}
    (h : compile store o params base = .ok l) : ∀ row ∈ l.page.rowsOf store, row ∈ store.rows m := by
  obtain ⟨s, hs, hpage⟩ := exists_refine_of_compile h
  have hmodel : l.page.model? = some m := by
    rw [hpage, ← hbase, ← model?_of_refine hs]
    unfold paged
    split <;> rfl
  intro row hrow
  have hsource := Select.mem_source_of_mem_rowsOf hrow
  rw [Select.source, hmodel] at hsource
  exact hsource

end TableApi.Listing
