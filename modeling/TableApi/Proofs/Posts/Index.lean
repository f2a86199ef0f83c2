import TableApi.Proofs.Listing.TextFilters
import TableApi.Proofs.Posts.Requests
import TableApi.Proofs.Resource.Registrations
import TableApi.Proofs.Web.Handling

/-! The index of posts over every query string. Whatever the query says, its parameters hold only
texts, lists and mappings; of these every condition on the status has a clause, and a search has a
pattern that stands for its term. So the statement of the index is built and runs on every table of
posts, its page is cut out of the posts that meet the query, and the total counts them. -/

namespace TableApi.Posts

open Resource Listing

/-! ### Rows of posts -/

/-- Whether a cell can be read as a value of a kind of columns that posts have. Null can always be
read. -/
def isReadable (kind : ColumnKind) (cell : Cell) : Bool :=
  match kind, cell with
  | _, .null | .integer, .integer _ | .text, .text _ => true
  | .moment, .text s => (Calendar.readMoment? s).isSome
  | _, _ => false

def isReadableRow (row : Row) : Bool :=
  model.columns.all fun c => isReadable c.kind (row.cell c.name)

theorem isReadable_cell {row : Row} (h : isReadableRow row = true) {c : Column}
    (hc : c ∈ model.columns) : isReadable c.kind (row.cell c.name) = true :=
  List.all_eq_true.1 h c hc

theorem belongs_text {row : Row} (h : isReadableRow row = true) {field : String}
    (hfield : field ∈ textFields) : (row.cell field).Belongs .text := by
  obtain ⟨c, rfl, hc⟩ := exists_isText hfield
  have hcell := isReadable_cell h hc.mem
  rw [hc.kind, hc.name] at hcell
  cases htext : row.cell c.field with
  | null => exact Or.inl rfl
  | text s => exact Or.inr ⟨s, rfl⟩
  | _ =>
    rw [htext] at hcell
    cases hcell

/-! ### The posts that meet a query -/

def textOf (name : String) (row : Row) : Option String := (row.cell name).text?

/-- Whether a search for a term finds a row: in its title or in its content. -/
def isFound (term : String) (row : Row) : Bool :=
  ["title", "content"].any fun name =>
    (textOf name row).any fun s => decide (Pattern.Finds term.toList s.toList)

/-- Whether a row meets the parameters: its status satisfies the conditions, and the search finds
it. -/
def meets (params : Entries Value) (row : Row) : Bool :=
  (conditions listing params).all (fun c => c.admits (textOf "status" row)) &&
    (searchText? listing.searching params).all fun term => isFound term row

/-- Parameters that search for no term whose pattern the store refuses to match. -/
def IsMatchable (params : Entries Value) : Prop :=
  ∀ term, searchText? listing.searching params = some term →
    Pattern.isTooLong (Pattern.holding term) = false

/-! ### The statement -/

def searchedTerms : List Term := [.column model.columns[1], .column model.columns[2]]

theorem searchClauses_eq (params : Entries Value) :
    searchClauses listing params (some model) =
      ((searchText? listing.searching params).map (Clause.search searchedTerms)).toList := by
  have hon : listing.searching.enabled = true := rfl
  rw [searchClauses, if_pos hon]
  cases searchText? listing.searching params <;> rfl

theorem holds_search (term : String) {row : Row} (h : isReadableRow row = true) :
    (Clause.search searchedTerms term).holds (some model) row = isFound term row := by
  have hcells : (Clause.search searchedTerms term).holds (some model) row =
      (Clause.holdsTerm term (row.cell "title") ||
        (Clause.holdsTerm term (row.cell "content") || false)) := rfl
  rw [hcells, Clause.holdsTerm_of_belongs (belongs_text h (by decide)),
    Clause.holdsTerm_of_belongs (belongs_text h (by decide))]
  rfl

/-- The statement of the index: it runs on every store, and its clauses hold of the rows that meet
the parameters. -/
structure Lists (params : Entries Value) (s : Select) : Prop where
  refined : refine listing params (.all model) = .ok s
  runs : ∀ store, s.check store = .ok ()
  holds : ∀ row, isReadableRow row = true →
    s.clauses.all (Clause.holds (some model) row) = meets params row

variable {params : Entries Value}

theorem exists_column_of_mem_terms {s : Select} (h : refine listing params (.all model) = .ok s) :
    ∀ t ∈ s.terms, ∃ c, t = .column c := by
  have hfield : ∀ field ∈ model.fields, ∃ c, Term.ofField (some model) field = .column c := by
    intro field hfield
    obtain ⟨c, -, hc⟩ := Term.exists_ofField_eq_column hfield
    exact ⟨c, hc⟩
  have hfilter : ∀ field ∈ listing.filtering.fields, field ∈ model.fields := by decide
  have hsearch : ∀ field ∈ listing.searching.fields, field ∈ model.fields := by decide
  have hsort : ∀ field ∈ listing.sorting.allowed, field ∈ model.fields := by decide
  exact forall_terms_of_refine rfl rfl (fun t ht => absurd ht List.not_mem_nil)
    (fun field h => hfield field (hfilter field h)) (fun field h => hfield field (hsearch field h))
    (fun field h => hfield field (hsort field h)) (fun _ _ c _ => ⟨c, rfl⟩) h

theorem of_mem_searchClauses (h : IsMatchable params) {clause : Clause}
    (hclause : clause ∈ searchClauses listing params (some model)) :
    (∀ p ∈ clause.parameters, Select.Binds p) ∧ clause.isTooComplex = false := by
  rw [searchClauses_eq, Option.mem_toList] at hclause
  obtain ⟨term, hterm, rfl⟩ := Option.map_eq_some_iff.1 hclause
  exact ⟨Select.binds_search _ term, h term hterm⟩

theorem all_searchClauses (params : Entries Value) {row : Row} (h : isReadableRow row = true) :
    (searchClauses listing params (some model)).all (Clause.holds (some model) row) =
      (searchText? listing.searching params).all fun term => isFound term row := by
  rw [searchClauses_eq]
  cases searchText? listing.searching params with
  | none => rfl
  | some term => simpa using holds_search term h

/-- Every condition in parsed parameters has its clause. -/
theorem exists_statusClauses (items : List Params.Item) :
    ∃ clauses, (conditions listing (Params.parse items)).mapM (clauseOfCondition (some model)) =
      .ok clauses ∧ List.Forall₂ (Decides model model.columns[3])
        (conditions listing (Params.parse items)) clauses := by
  refine exists_clauses fun c hc => ?_
  obtain ⟨hfield, hshape⟩ := of_mem_conditions hc
  have hstatus : c.field = "status" := List.mem_singleton.1 hfield
  refine exists_decides rfl ?_ (Condition.isTextual_of_mem hc) hshape
  rw [hstatus]
  rfl

/-- Parsed parameters have a statement. -/
theorem exists_lists (items : List Params.Item) (h : IsMatchable (Params.parse items)) :
    ∃ s, Lists (Params.parse items) s := by
  obtain ⟨clauses, hclauses, hdecides⟩ := exists_statusClauses items
  set params := Params.parse items
  set s := extended (.all model) (clauses ++ searchClauses listing params (some model))
    (orderTerms listing params (some model))
  have hrefined : refine listing params (.all model) = .ok s :=
    (refine_eq_ok_iff rfl).2 ⟨clauses, hclauses, rfl⟩
  have hparts : s.clauses = clauses ++ searchClauses listing params (some model) :=
    List.nil_append _
  have hparameters : s.parameters = s.clauses.flatMap Clause.parameters := List.append_nil _
  have hsound : ∀ clause ∈ s.clauses,
      (∀ p ∈ clause.parameters, Select.Binds p) ∧ clause.isTooComplex = false := by
    intro clause hclause
    rw [hparts] at hclause
    rcases List.mem_append.1 hclause with hcondition | hsearch
    · obtain ⟨c, hc⟩ := exists_decides_of_mem hdecides hcondition
      exact ⟨hc.binds, hc.simple⟩
    · exact of_mem_searchClauses h hsearch
  refine ⟨s, hrefined, ?_, ?_⟩
  · refine Select.check_of_columns nofun ?_ (exists_column_of_mem_terms hrefined)
      fun clause hclause => (hsound clause hclause).2
    intro p hp
    rw [hparameters] at hp
    obtain ⟨clause, hclause, hp⟩ := List.mem_flatMap.1 hp
    exact (hsound clause hclause).1 p hp
  · intro row hrow
    rw [hparts, List.all_append, all_holds hdecides (belongs_text hrow (by decide)),
      all_searchClauses params hrow]
    rfl

/-! ### The answer -/

def shownRow (requested : Option String) (row : Row) : Value :=
  .map (selectFields (requestedFields? requested) (plainFields model (Record.ofRow model row)))

/-- The page of a listing of rows that the parameters ask for. -/
def page (params : Entries Value) (rows : List Row) : List Row :=
  (rows.drop (Window.ofParams listing.pagination params).offset).take
    (Window.ofParams listing.pagination params).size.val

variable {r : Resource}

theorem answerRow_index (hr : IsPosts r) (hindex : r.indexFields? = none)
    (requested : Option String) (row : Row) :
    Value.map (r.answerRow .index requested row) = shownRow requested row := by
  have hshown : r.shownFields? .index requested = requestedFields? requested := by
    rw [shownFields?, fieldsFor, hindex]
    cases requestedFields? requested <;> rfl
  rw [answerRow, answer, hshown, hr.model]
  rfl

/-- The index answers with a page of the rows that meet the parameters, in some order, and with
their count. -/
theorem index_of_lists (hr : IsPosts r) (hindex : r.indexFields? = none) {s : Select}
    (hs : Lists params s) (requested : Option String) {store : Store}
    (hrows : ∀ row ∈ store.rows model, isReadableRow row = true) :
    ∃ listed, listed.Perm ((store.rows model).filter (meets params)) ∧
      r.index params requested store = .ok [
        ("rows", .list ((page params listed).map (shownRow requested))),
        ("total", .int ((store.rows model).filter (meets params)).length)] := by
  obtain ⟨hmodel, houtput, hwindow⟩ := refine_keeps rfl hs.refined
  have hmodel : s.model? = some model := hmodel
  have houtput : s.output = .records := houtput
  have hmatching : s.matching (s.source store) = (store.rows model).filter (meets params) := by
    rw [Select.source, Select.matching, hmodel]
    exact List.filter_congr fun row hrow => hs.holds row (hrows row hrow)
  have hcount : (s.answersOf store).length =
      ((store.rows model).filter (meets params)).length := by
    rw [Select.length_answersOf hwindow, houtput, hmodel, ← hmatching]
  have hanswers := index_of_check hr hs.refined (hs.runs store) requested
  rw [rowsOf_paged rfl params hwindow, hcount] at hanswers
  simp only [answerRow_index hr hindex] at hanswers
  exact ⟨s.rowsOf store, hmatching ▸ Select.rowsOf_perm hwindow store, hanswers⟩

/-! ### The response -/

section Response

open Web

theorem isCompliant_plain_load {kind : ColumnKind} {cell : Cell} (h : isReadable kind cell = true) :
    isCompliant (cell.load kind).plain = true := by
  unfold isReadable at h
  split at h
  · cases kind <;> rfl
  · rfl
  · rfl
  · next s =>
    obtain ⟨m, hm⟩ := Option.isSome_iff_exists.1 h
    rw [Cell.load, Cell.loadMoment, hm]
    rfl
  · cases h

theorem isCompliant_shownRow (requested : Option String) {row : Row}
    (h : isReadableRow row = true) : isCompliant (shownRow requested row) = true :=
  isCompliant_selectFields (fun _ hc => isCompliant_plain_load (isReadable_cell h hc)) _

/-- The application as it comes has the posts and nothing else, and shows all their fields. -/
theorem exists_of_defaultRegistry {registry : Registry} (h : defaultRegistry = .ok registry) :
    ∃ r, registry = [r] ∧ IsPosts r ∧ r.name = "posts" ∧ r.indexFields? = none := by
  cases hregister : Registry.register [] registration with
  | error e =>
    rw [defaultRegistry, hregister] at h
    cases h
  | ok p =>
    obtain ⟨registry', r⟩ := p
    rw [defaultRegistry, hregister] at h
    cases h
    obtain ⟨rfl, -, hfulfils⟩ := Registry.of_register hregister
    obtain ⟨name, hname, hdefine⟩ := Registry.exists_readName_of_register hregister
    have d := Registry.defines_of_define hdefine
    have hposts : Registry.readName registration.name = .ok "posts" := rfl
    have hname : name = "posts" := Except.ok.inj (hname.symm.trans hposts)
    exact ⟨r, rfl, isPosts_of_register hregister, d.name.trans hname,
      (Except.ok.inj d.indexFields).symm⟩

def paramsOf (query : String) : Entries Value := Params.parse (readQuery query)

/-- The page that a query string asks for, and the size of pages. -/
def windowOf (query : String) : Window := Window.ofParams listing.pagination (paramsOf query)

def counted (query : String) (state : State) : List Row :=
  (state.store.rows model).filter (meets (paramsOf query))

/-- The index of posts for a query: a page of the posts that meet it, in some order, and their
count. -/
structure IsIndex (query : String) (state : State) (e : Exchange) : Prop where
  status : e.response.status = 200
  failure : e.failure? = none
  unchanged : e.state = state ∧ e.calls = []
  body : ∃ shown, e.response.body =
      .json (.map [("rows", .list shown), ("total", .int (counted query state).length)]) ∧
    shown.length = min (windowOf query).size.val ((counted query state).length -
      ((windowOf query).page.val - 1) * (windowOf query).size.val) ∧
    shown.length ≤ 50 ∧
    ∃ listed, listed.Perm (counted query state) ∧
      shown = (page (paramsOf query) listed).map (shownRow (listedFields? (paramsOf query)))

variable {app : App} {now : Calendar.Moment} {request : Web.Request} {state : State}

theorem dispatch_index (hregistry : app.registry = [r]) (hname : r.name = "posts")
    (hmethod : request.method = "GET") (hpath : percentDecode request.path = "/api/posts") :
    app.dispatch now request state = app.follow now request state (.index r) := by
  have hlist : listPath r.name = "/api/posts" := by rw [hname]; rfl
  refine dispatch_eq_follow (.list r) (.index r) ?_ (by rw [hmethod]; rfl)
  rw [hpath, hregistry, ← hlist, place?_listPath]

theorem follow_index {answer : Entries Value}
    (hanswer : r.index (paramsOf request.query) (listedFields? (paramsOf request.query))
      state.store = .ok answer)
    (hcompliant : isCompliant (.map answer) = true) :
    app.follow now request state (.index r) = ⟨.ok (.json 200 (.map answer)), state, []⟩ := by
  rw [← reply_of_isCompliant hcompliant]
  rw [paramsOf] at hanswer
  simp only [App.follow, hanswer, replyTo]

theorem isCompliant_index {rows : List Row} (hrows : ∀ row ∈ rows, isReadableRow row = true)
    (requested : Option String) (total : Nat) : isCompliant (.map [
      ("rows", .list (rows.map (shownRow requested))), ("total", .int total)]) = true := by
  have hshown : areCompliant (rows.map (shownRow requested)) = true := by
    rw [areCompliant_iff]
    intro v hv
    obtain ⟨row, hrow, rfl⟩ := List.mem_map.1 hv
    exact isCompliant_shownRow requested (hrows row hrow)
  simp [isCompliant, entriesCompliant, hshown]

/-- Every query string is answered with the index, whatever posts there are. -/
theorem index_of_every_query (happ : defaultRegistry = .ok app.registry)
    (now : Calendar.Moment) (fresh : String) (hmethod : request.method = "GET")
    (hpath : percentDecode request.path = "/api/posts")
    (hrows : ∀ row ∈ state.store.rows model, isReadableRow row = true)
    (hmatchable : IsMatchable (paramsOf request.query)) :
    IsIndex request.query state (app.handle now fresh request state) := by
  obtain ⟨r, hregistry, hr, hname, hindex⟩ := exists_of_defaultRegistry happ
  obtain ⟨s, hs⟩ : ∃ s, Lists (paramsOf request.query) s := exists_lists _ hmatchable
  obtain ⟨listed, hlisted, hanswer⟩ :=
    index_of_lists hr hindex hs (listedFields? (paramsOf request.query)) hrows
  have hpage : ∀ row ∈ page (paramsOf request.query) listed, isReadableRow row = true := by
    intro row hrow
    have hcounted := hlisted.mem_iff.1 (List.mem_of_mem_drop (List.mem_of_mem_take hrow))
    exact hrows row (List.mem_filter.1 hcounted).1
  have hlength : (page (paramsOf request.query) listed).length =
      min (windowOf request.query).size.val ((counted request.query state).length -
        ((windowOf request.query).page.val - 1) * (windowOf request.query).size.val) := by
    rw [page, List.length_take, List.length_drop, hlisted.length_eq]
    rfl
  have hdispatch : app.dispatch now request state = _ :=
    (dispatch_index hregistry hname hmethod hpath).trans
      (follow_index hanswer (isCompliant_index hpage _ _))
  rw [handle_of_dispatch fresh (by rw [hmethod]; decide) hdispatch]
  refine ⟨rfl, rfl, ⟨rfl, rfl⟩, _, rfl, ?_, ?_, listed, hlisted, rfl⟩
  · rw [List.length_map, hlength]
  · rw [List.length_map, hlength]
    exact (min_le_left _ _).trans (size_le _)

def post (number : Int) (title status : String) : Row :=
  ⟨number, [("id", .integer number), ("title", .text title), ("status", .text status)]⟩

/-- Three posts, two of them with underscores in their titles, one of these a draft. -/
def underscored : State := ⟨[⟨model, [post 1 "snake_case" "published",
  post 2 "camelCase" "published", post 3 "UPPER_CASE" "draft"]⟩], 0⟩

/-- A query with conflicting keys, unclosed brackets and numbers that are none. -/
def oddQuery : Web.Request := ⟨"GET", "/api/posts",
  "filter[status]=x&filter[status][neq]=draft&q=%5F&size=-1&page=two&sort=-title&[[&fields=title",
  [], ""⟩

/-- The underscore stands for itself, so one post is counted. -/
theorem index_of_oddQuery : ∃ registry, defaultRegistry = .ok registry ∧
    (∀ row ∈ underscored.store.rows model, isReadableRow row = true) ∧
    IsMatchable (paramsOf oddQuery.query) ∧
    IsIndex oddQuery.query underscored
      (App.handle ⟨.default, registry⟩ noon "tag" oddQuery underscored) ∧
    (counted oddQuery.query underscored).map Row.number = [1] := by
  have hregistered : defaultRegistry.toOption.isSome = true := by decide +kernel
  obtain ⟨registry, hregistry⟩ := exists_of_isSome_toOption hregistered
  have hrows : ∀ row ∈ underscored.store.rows model, isReadableRow row = true := by
    decide +kernel
  have hterm : searchText? listing.searching (paramsOf oddQuery.query) = some "_" := by
    decide +kernel
  have hmatchable : IsMatchable (paramsOf oddQuery.query) := by
    intro term h
    obtain rfl := Option.some.inj (hterm.symm.trans h)
    decide +kernel
  have hcounted : (counted oddQuery.query underscored).map Row.number = [1] := by decide +kernel
  exact ⟨registry, hregistry, hrows, hmatchable,
    index_of_every_query hregistry noon "tag" rfl (by decide +kernel) hrows hmatchable, hcounted⟩

end Response

end TableApi.Posts
