import TableApi.Proofs.Listing.Terms
import TableApi.Proofs.Resource.Registered
import TableApi.Web.App

/-! What a listing can tell about the rows. A resource with a list of shown fields looks only at the
columns that its options list, and shows only those of its list. Rows that agree on these columns
give the same answer to every query, so that no other column can be probed. -/

namespace TableApi

namespace Resource

/-- The fields that a listing may look at or show. -/
def listedFields (r : Resource) : List String :=
  r.options.filtering.fields ++ r.options.searching.fields ++ r.options.sorting.allowed ++
    r.indexFields?.getD []

def listedNames (r : Resource) : List String :=
  r.listedFields.filterMap fun field => (r.model.column? field).map Column.name

theorem name_mem_listedNames {r : Resource} {field : String} {c : Column}
    (hfield : field ∈ r.listedFields) (hc : r.model.column? field = some c) :
    c.name ∈ r.listedNames :=
  List.mem_filterMap.2 ⟨field, hfield, by rw [hc, Option.map_some]⟩

/-! ### Answers -/

theorem shownFields?_subset {r : Resource} {action : Action} {fields : List String}
    (hfields : r.fieldsFor action = some fields) (requested : Option String) :
    ∃ shown, r.shownFields? action requested = some shown ∧ ∀ field ∈ shown, field ∈ fields := by
  unfold shownFields?
  rw [hfields]
  cases requestedFields? requested with
  | none => exact ⟨fields, rfl, fun _ h => h⟩
  | some wanted =>
    refine ⟨_, rfl, ?_⟩
    intro field hfield
    simpa using (List.mem_filter.1 hfield).2

/-- The answer for a row is that for its mask, when the mask leaves the shown columns. -/
theorem answerRow_masked {r : Resource} {fields : List String} (hindex : r.indexFields? = some fields)
    (requested : Option String) (row : Row) :
    r.answerRow .index requested (row.masked r.listedNames) = r.answerRow .index requested row := by
  have hfields : r.fieldsFor .index = some fields := hindex
  obtain ⟨shown, hshown, hsubset⟩ := shownFields?_subset hfields requested
  have hvalue : ∀ field ∈ shown,
      Record.value (Record.ofRow r.model (row.masked r.listedNames)) field =
        Record.value (Record.ofRow r.model row) field := by
    intro field hfield
    rw [Record.value, Record.value, Record.get?_ofRow, Record.get?_ofRow]
    cases hc : r.model.column? field with
    | none => rfl
    | some c =>
      have hlisted : field ∈ r.listedFields := by
        rw [listedFields, hindex]
        exact List.mem_append_right _ (hsubset field hfield)
      rw [Option.map_some, Option.map_some, Row.cell_masked (name_mem_listedNames hlisted hc)]
  unfold answerRow answer
  rw [hshown]
  simp only [selectFields, plainFields, List.filter_map]
  apply List.map_congr_left
  intro field hfield
  have hmem : field ∈ shown := by simpa using (List.mem_filter.1 hfield).2
  rw [hvalue field hmem]

/-! ### Listings -/

theorem covered_of_register {registry registry' : Registry} {g : Registration} {r : Resource}
    (hregister : Registry.register registry g = .ok (registry', r)) {field : String}
    (hlisted : field ∈ r.listedFields) (hoption : field ∈ r.options.fieldNames) :
    Listing.Covered r.listedNames r.model field := by
  obtain ⟨c, hc⟩ := Model.exists_column?_of_mem
    (Registry.fieldNames_subset_of_register hregister field hoption)
  exact ⟨c, hc, name_mem_listedNames hlisted hc⟩

/-- The statement of a listing looks only at listed columns. -/
theorem within_of_refine_all {registry registry' : Registry} {g : Registration} {r : Resource}
    (hregister : Registry.register registry g = .ok (registry', r))
    (hsorting : r.options.sorting.enabled = false ∨ r.options.sorting.allowed ≠ [])
    {params : Entries Value} {s : Select}
    (hs : Listing.refine r.options params (.all r.model) = .ok s) :
    s.Within r.listedNames := by
  have hbase : (Select.all r.model).Within r.listedNames :=
    ⟨fun c hc => absurd hc List.not_mem_nil, fun o ho => absurd ho List.not_mem_nil⟩
  have hcovered : ∀ field ∈ r.options.sorting.allowed ++ r.options.searching.fields ++
      r.options.filtering.fields, Listing.Covered r.listedNames r.model field := by
    intro field hfield
    refine covered_of_register hregister ?_ (List.mem_eraseDups.2 hfield)
    simp only [listedFields, List.mem_append] at hfield ⊢
    tauto
  refine Listing.within_of_refine rfl rfl hbase ?_ ?_ ?_ hsorting hs
  · exact fun field h => hcovered field (List.mem_append_right _ h)
  · exact fun field h => hcovered field (List.mem_append_left _ (List.mem_append_right _ h))
  · exact fun field h => hcovered field (List.mem_append_left _ (List.mem_append_left _ h))

/-- A listing compiles to the same on tables that are the same behind the mask. -/
theorem compile_eq_of_masked {names : List String} {o : Options} {params : Entries Value} {m : Model}
    (hwithin : ∀ s, Listing.refine o params (.all m) = .ok s → s.Within names)
    {store store' : Store}
    (hrows : (store.rows m).map (Row.masked names) = (store'.rows m).map (Row.masked names)) :
    Listing.compile store o params (.all m) = Listing.compile store' o params (.all m) := by
  unfold Listing.compile
  cases hs : Listing.refine o params (.all m) with
  | error e => rfl
  | ok s =>
    obtain ⟨hmodel, -, hwindow⟩ := Listing.refine_keeps rfl hs
    have hsource : (s.source store).map (Row.masked names) =
        (s.source store').map (Row.masked names) := by
      unfold Select.source
      rw [hmodel]
      exact hrows
    have hcount := Select.countAnswers_eq_of_masked (hwithin s hs) hwindow hsource
    simp only [bind, Except.bind, mapError_ok, hcount]

/-- The page of a listing shows the same rows behind the mask, or meets the same error. -/
theorem run_eq_of_masked {names : List String} {s : Select} (hwithin : s.Within names)
    {store store' : Store} (hsource : (s.source store).map (Row.masked names) =
      (s.source store').map (Row.masked names)) :
    (s.run store).map (List.map (Row.masked names)) =
      (s.run store').map (List.map (Row.masked names)) := by
  have hrows : (s.rowsOf store).map (Row.masked names) =
      (s.rowsOf store').map (Row.masked names) := by
    rw [Select.map_masked_rowsOf hwithin, Select.map_masked_rowsOf hwithin, hsource]
  unfold Select.run
  rw [Select.check_eq_of_masked hwithin hsource]
  cases s.check store' with
  | error e => rfl
  | ok u => exact congrArg Except.ok hrows

theorem within_paged {names : List String} {s : Select} (h : s.Within names)
    (o : Options.Pagination) (params : Entries Value) :
    (Listing.paged o params s).Within names := by
  unfold Listing.paged
  split
  · exact ⟨h.clauses, h.order⟩
  · exact h

theorem source_paged (o : Options.Pagination) (params : Entries Value) (s : Select)
    (store : Store) : (Listing.paged o params s).source store = s.source store := by
  unfold Listing.paged
  split <;> rfl

/-- Rows that are the same behind the mask are shown the same. -/
theorem map_answerRow_eq_of_masked {r : Resource} {fields : List String}
    (hindex : r.indexFields? = some fields) (requested : Option String) {rows rows' : List Row}
    (h : rows.map (Row.masked r.listedNames) = rows'.map (Row.masked r.listedNames)) :
    (rows.map fun row => Value.map (r.answerRow .index requested row)) =
      rows'.map fun row => Value.map (r.answerRow .index requested row) := by
  have hmasked : ∀ rows : List Row,
      (rows.map fun row => Value.map (r.answerRow .index requested row)) =
        (rows.map (Row.masked r.listedNames)).map fun row =>
          Value.map (r.answerRow .index requested row) := by
    intro rows
    rw [List.map_map]
    apply List.map_congr_left
    intro row _
    rw [Function.comp_apply, answerRow_masked hindex]
  rw [hmasked rows, hmasked rows', h]

/-- The answer of a listing to a query, whose tree also names the requested fields. -/
def indexQuery (r : Resource) (query : String) (store : Store) :
    Except ServiceError (Entries Value) :=
  let params := Params.parse (Web.readQuery query)
  r.index params (Web.listedFields? params) store

/-- A query gives the same answer on rows that agree on the listed columns: the same rows in the
same order and the same total, or the same error. -/
theorem indexQuery_eq_of_agree {registry registry' : Registry} {g : Registration} {r : Resource}
    (hregister : Registry.register registry g = .ok (registry', r)) {fields : List String}
    (hindex : r.indexFields? = some fields) (hcollection : r.collection? = none)
    (hsorting : r.options.sorting.enabled = false ∨ r.options.sorting.allowed ≠ [])
    {store store' : Store}
    (hagree : List.Forall₂ (Row.Agree r.listedNames) (store.rows r.model) (store'.rows r.model))
    (query : String) : r.indexQuery query store = r.indexQuery query store' := by
  simp only [indexQuery]
  generalize Params.parse (Web.readQuery query) = params
  have hbase : r.base = .all r.model := by rw [base, hcollection, Option.getD_none]
  have hrows := Row.map_masked_eq_of_agree hagree
  have hwithin : ∀ s, Listing.refine r.options params (.all r.model) = .ok s →
      s.Within r.listedNames := fun s hs => within_of_refine_all hregister hsorting hs
  have hcompile := compile_eq_of_masked hwithin hrows
  unfold index
  rw [hbase, hcompile]
  cases hl : Listing.compile store' r.options params (.all r.model) with
  | error e => rfl
  | ok l =>
    obtain ⟨s, hs, hpage⟩ := Listing.exists_refine_of_compile hl
    obtain ⟨hmodel, -, -⟩ := Listing.refine_keeps rfl hs
    have hsource : (l.page.source store).map (Row.masked r.listedNames) =
        (l.page.source store').map (Row.masked r.listedNames) := by
      rw [hpage, source_paged, source_paged, Select.source, Select.source, hmodel]
      exact hrows
    have hpaged : l.page.Within r.listedNames := by
      rw [hpage]
      exact within_paged (hwithin s hs) _ _
    have hrun := run_eq_of_masked hpaged hsource
    cases hleft : l.page.run store with
    | error e =>
      cases hright : l.page.run store' with
      | error e' =>
        rw [hleft, hright] at hrun
        cases hrun
        simp only [bind, Except.bind, mapError_ok, mapError_error, hleft, hright]
      | ok rows' =>
        rw [hleft, hright] at hrun
        cases hrun
    | ok rows =>
      cases hright : l.page.run store' with
      | error e' =>
        rw [hleft, hright] at hrun
        cases hrun
      | ok rows' =>
        rw [hleft, hright] at hrun
        have hshown := map_answerRow_eq_of_masked hindex (Web.listedFields? params)
          (Except.ok.inj hrun)
        simp only [bind, Except.bind, mapError_ok, hleft, hright, hshown]

def briefPosts : Registration :=
  { Posts.registration with indexFields := Posts.texts ["id", "title"] }

/-- One post, with some cell for the time of its publication. -/
def onePost (publishedAt : Cell) : Store :=
  [⟨Posts.model, [⟨1, [("id", .integer 1), ("title", .text "First"), ("status", .text "draft"),
    ("published_at", publishedAt)]⟩]⟩]

/-- A query cannot find out by filters, order or fields whether a post was published. -/
theorem indexQuery_onePost : ∃ registry r, Registry.register [] briefPosts = .ok (registry, r) ∧
    r.indexQuery "filter[published_at]=&sort=-published_at&fields=id,published_at"
        (onePost .null) =
      r.indexQuery "filter[published_at]=&sort=-published_at&fields=id,published_at"
        (onePost (.text "2026-01-01 00:00:00.000000")) := by
  have hfacts : (Registry.register [] briefPosts).toOption.map
      (fun p => (p.2.indexFields?, p.2.options.sorting.allowed, p.2.listedNames)) =
        some (some ["id", "title"], ["id", "title", "created_at", "updated_at"],
          ["status", "title", "content", "id", "title", "created_at", "updated_at", "id",
            "title"]) := by
    decide +kernel
  obtain ⟨⟨registry, r⟩, hregister, hlists⟩ := exists_of_toOption_map hfacts
  obtain ⟨hindex, hallowed, hnames⟩ : r.indexFields? = some ["id", "title"] ∧
      r.options.sorting.allowed = ["id", "title", "created_at", "updated_at"] ∧
      r.listedNames = ["status", "title", "content", "id", "title", "created_at", "updated_at",
        "id", "title"] := by
    simpa using hlists
  obtain ⟨name, hdefine⟩ := Registry.exists_define_of_register hregister
  obtain ⟨-, hmodel, hcollection, -⟩ := Registry.of_define hdefine
  have hagree : List.Forall₂ (Row.Agree r.listedNames) ((onePost .null).rows r.model)
      ((onePost (.text "2026-01-01 00:00:00.000000")).rows r.model) := by
    rw [hnames, hmodel]
    exact .cons (by unfold Row.Agree; decide) .nil
  exact ⟨registry, r, hregister, indexQuery_eq_of_agree hregister hindex hcollection
    (Or.inr (by rw [hallowed]; decide)) hagree _⟩

end Resource

end TableApi
