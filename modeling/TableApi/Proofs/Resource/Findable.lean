import TableApi.Proofs.Listing.FilteredRows
import TableApi.Proofs.Options
import TableApi.Proofs.Params.RoundTrip
import TableApi.Proofs.Resource.Conforming
import TableApi.Proofs.Resource.Frame

/-! What is shown can be found. The text of a value in an answer, sent back as a filter on its
field, passes through the parser of keys, the coercion to the column and the binding to the store,
and ends as a cell that is equal to the one it was read from. -/

namespace TableApi

/-- A safe name can stand in the brackets of a key. -/
theorem isSegment_of_isSafeName {s : String} (h : Options.isSafeName s = true) :
    Params.IsSegment s := by
  have hplain {p : Char → Bool} (hopen : p '[' = false) (hclose : p ']' = false) :
      ∀ c, p c = true → Params.isPlain c = true := by
    intro c hc
    rw [Params.isPlain, Bool.and_eq_true, bne_iff_ne, bne_iff_ne]
    constructor
    · rintro rfl
      exact Bool.false_ne_true (hopen.symm.trans hc)
    · rintro rfl
      exact Bool.false_ne_true (hclose.symm.trans hc)
  have hstart := hplain (p := Options.isNameStart) (by decide) (by decide)
  have hlater := hplain (p := fun d => Options.isNameStart d || Text.isPlainDigit d) (by decide)
    (by decide)
  unfold Options.isSafeName at h
  constructor
  · rintro rfl
    cases h
  · rw [Params.Unbracketed]
    split at h
    · cases h
    · next first rest hs =>
      obtain ⟨hfirst, hrest⟩ := Bool.and_eq_true_iff.1 h
      rw [hs]
      exact List.forall_mem_cons.2
        ⟨hstart first hfirst, fun c hc => hlater c (List.all_eq_true.1 hrest c hc)⟩

/-! ### The filter on a text -/

namespace Listing

open Coercion Select

def filterItem (field text : String) : Params.Item := ⟨"filter[" ++ field ++ "][in][]", text⟩

/-- The item is parsed as the filter by a list of the one text. -/
theorem parse_filterItem {field : String} (h : Params.IsSegment field) (text : String) :
    Params.parse [filterItem field text] =
      [("filter", .map [(field, .map [(Operator.isIn.word, .list [.text text])])])] := by
  let w : Params.Writing := ⟨["filter", field, "in"], true, text⟩
  have hkey : Params.printKey ["filter", field, "in", ""] = "filter[" ++ field ++ "][in][]" := by
    apply String.toList_inj.1
    simp [Params.printKey, String.toList_append]
  have hitem : w.item = filterItem field text := congrArg (Params.Item.mk · text) hkey
  have hproper : w.Proper := by
    refine ⟨⟨"filter", [field, "in"], rfl, ⟨'f', by decide, by decide⟩, Bool.noConfusion⟩, ?_,
      Nat.le_refl 3⟩
    have hends : Params.IsSegment "filter" ∧ Params.IsSegment "in" := by decide
    simp only [w, List.forall_mem_cons]
    exact ⟨hends.1, h, hends.2, List.forall_mem_nil _⟩
  have hwriting := Params.writing?_item hproper
  rw [hitem] at hwriting
  have hone := Params.parse_concat [] (filterItem field text)
  rw [hwriting] at hone
  exact hone

variable {store : Store} {m : Model} {base : Select} {row : Row}

/-- A statement without a window of its own that runs on the table of a model and gives a row. -/
structure Gives (store : Store) (base : Select) (m : Model) (row : Row) : Prop where
  unwindowed : base.isWindowed = false
  model : base.model? = some m
  runs : base.check store = .ok ()
  mem : row ∈ base.rowsOf store

theorem Gives.mem_rows (h : Gives store base m row) : row ∈ store.rows m := by
  have hsource := ((mem_rowsOf_iff h.unwindowed).1 h.mem).1
  rwa [source, h.model] at hsource

theorem gives_all (h : row ∈ store.rows m) : Gives store (Select.all m) m row :=
  ⟨rfl, rfl, check_all m store, (mem_rowsOf_iff rfl).2 ⟨h, rfl⟩⟩

/-- A text that is read back as equal to a cell selects the row of the cell, among the rows that a
statement gives. -/
theorem mem_shown_of_readsBack {o : Options} {field text : String} {c : Column}
    (hon : o.filtering.enabled = true) (hfield : field ∈ o.filtering.fields)
    (hcolumn : m.column? field = some c) (hgives : Gives store base m row) {x : Value}
    (hx : ReadsBack c.kind text (row.cell c.name) x) :
    ∃ here, shown store o.unpaged (filterBy o field .isIn (.list [.text text])) base = .ok here ∧
      row ∈ here.rows := by
  have htyped : Typed c.kind x := typed_of_coerce hx.coerced hx.isInstance hx.isNumber
  have hcoerced : coerceOperand (.column c) (.many [.text text]) = .ok (.many [x]) := by
    rw [coerceOperand, List.mapM_cons, List.mapM_nil, coerceFor_column, hx.coerced, mapError_ok]
    rfl
  have hbinds : ∀ p ∈ (Clause.isIn (.column c) [x]).parameters, Binds p := by
    intro p hp
    rw [Clause.parameters, Clause.listType_cons htyped, List.map_singleton,
      List.mem_singleton] at hp
    rw [hp]
    exact hx.binds
  have hcells : (Clause.isIn (.column c) [x]).boundCells = [Clause.operandCell c.kind x] :=
    Clause.boundCells_isIn (by simpa using htyped) hbinds
  have hholds : (Clause.isIn (.column c) [x]).holds base.model? row = true := by
    rw [Clause.holds, hcells, List.any_cons, Bool.or_eq_true]
    exact Or.inl hx.equal
  have hclause : clauseOf (.column c) .isIn (.many [x]) = .ok (.isIn (.column c) [x]) := rfl
  have hoperand : Condition.operand? .isIn (.list [.text text]) = some (.many [.text text]) := rfl
  have hrefine := refine_filterBy hon hfield hcolumn hgives.unwindowed hgives.model hoperand hcoerced
    hclause
  have hruns := check_extended hgives.runs hbinds
    (fun t ht => ⟨c, List.mem_singleton.1 ht⟩) rfl
  obtain ⟨here, hshown, hrows⟩ := exists_shown_unpaged hrefine hruns
  refine ⟨here, hshown, ?_⟩
  rw [hrows, mem_rowsOf_extended hgives.unwindowed]
  exact ⟨hgives.mem, hholds⟩

end Listing

namespace Resource

open Listing

variable {σ : Schema} {r : Resource} {state : State}

/-- An answer shows a field as the plain form of what is loaded from its column. -/
theorem eq_plain_of_answerRow {action : Action} {requested : Option String} {row : Row}
    {field : String} {v : Value} {c : Column} (hcolumn : r.model.column? field = some c)
    (h : Entries.get? (r.answerRow action requested row) field = some v) :
    v = ((row.cell c.name).load c.kind).plain := by
  have hmem : (field, v) ∈ plainFields r.model (Record.ofRow r.model row) := by
    have hselected := Entries.mem_of_get?_eq_some h
    unfold answerRow answer selectFields at hselected
    split at hselected
    · exact hselected
    · exact (List.mem_filter.1 hselected).1
  obtain ⟨shown, -, hentry⟩ := List.mem_map.1 hmem
  obtain ⟨rfl, rfl⟩ := Prod.mk.inj hentry
  rw [Record.value_ofRow hcolumn]

/-- Every value that is shown of a row, of a kind with texts, finds the row: its text, sent as a
filter on its field, selects the row from those that the resource lists. -/
theorem shown_values_find {registry registry' : Registry} {g : Registration}
    (hregister : Registry.register registry g = .ok (registry', r))
    (hσ : ∀ m ∈ σ.models, m.Regular) (hstate : Conforming σ state) (hm : r.model ∈ σ.models)
    (hon : r.options.filtering.enabled = true)
    (hparam : r.options.filtering.filterParam = "filter") {row : Row}
    (hgives : Gives state.store r.base r.model row) {field : String} {c : Column}
    (hfield : field ∈ r.options.filtering.fields) (hcolumn : r.model.column? field = some c)
    (hkind : c.kind.isSpelled = true) {action : Action} {requested : Option String} {v : Value}
    (hshown : Entries.get? (r.answerRow action requested row) field = some v) (hv : v ≠ .null) :
    ∃ here, shown state.store r.options.unpaged (Params.parse [filterItem field v.plainText])
      r.base = .ok here ∧ row ∈ here.rows := by
  have hsegment : Params.IsSegment field := by
    obtain ⟨name, hdefine⟩ := Registry.exists_define_of_register hregister
    exact isSegment_of_isSafeName (Options.isSafeName_of_resolve
      (Registry.defines_of_define hdefine).options field (mem_fieldNames_of_filtering hfield))
  have hs := sound_of_reachable (reachable_of_conforming hstate)
  have hbelongs : (row.cell c.name).Belongs c.kind :=
    (conforms_of_conforming hσ hstate).rows hs hm row hgives.mem_rows c
      (List.mem_of_find?_eq_some hcolumn)
  obtain rfl := eq_plain_of_answerRow hcolumn hshown
  have hcanonical : (row.cell c.name).Canonical c.kind := by
    refine hbelongs.resolve_left fun hnull => hv ?_
    rw [hnull]
    cases c.kind <;> rfl
  obtain ⟨x, hx⟩ := exists_readsBack hkind hcanonical
  obtain ⟨here, hhere, hmem⟩ := mem_shown_of_readsBack hon hfield hcolumn hgives hx
  refine ⟨here, ?_, hmem⟩
  rw [parse_filterItem hsegment]
  rw [filterBy, hparam] at hhere
  exact hhere

def timedPosts : Registration :=
  { plainPosts with options := .map [("filtering", .map [("enabled", .bool true),
    ("filterable_fields", Posts.texts ["published_at"])])] }

/-- A post that was published in another time zone. -/
def timedPost : Value := .map [("title", .text "First"), ("content", .text "Hello"),
  ("published_at", .text "2026-01-01T12:00:00.5+02:00")]

def createdPost (r : Resource) : Outcome (Entries Value) :=
  r.create noon timedPost ⟨Store.empty [Posts.model], 0⟩

theorem regular_posts : Posts.model.Regular where
  names := by decide
  fields := by decide
  columns := by
    simp only [Posts.model, Posts.timestamps, List.cons_append, List.nil_append, List.forall_mem_cons]
    refine ⟨.of_none rfl rfl rfl, .of_none rfl rfl rfl, .of_none rfl rfl rfl, ?_,
      .of_none rfl rfl rfl, .of_now rfl rfl rfl, .of_now rfl rfl rfl,
      List.forall_mem_nil _⟩
    -- A status is a text by default, in the program and in the store.
    refine ⟨?_, Or.inr ⟨"draft", rfl⟩, nofun⟩
    intro d hd supply
    obtain rfl : .value (.text "draft") = d := Option.some.inj hd
    exact fun _ => Or.inr ⟨rfl, nofun⟩

/-- The time of publication is shown without its time zone, and the post is found by it. -/
theorem createdPost_found : ∃ registry r row,
    Registry.register [] timedPosts = .ok (registry, r) ∧
      (∃ v, Entries.get? (r.answerRow .index none row) "published_at" = some v ∧
        v.plainText = "2026-01-01T12:00:00.500000") ∧
      ∃ here, shown r.createdPost.state.store r.options.unpaged
        (Params.parse [filterItem "published_at" "2026-01-01T12:00:00.500000"]) r.base = .ok here ∧
          row ∈ here.rows := by
  have hfacts : (Registry.register [] timedPosts).toOption.map (fun p =>
      p.2.hooks.isEmpty && p.2.collection?.isNone &&
        decide (p.2.options.filtering = ⟨true, "filter", ["published_at"]⟩) &&
        decide ((p.2.createdPost.state.store.rows Posts.model).map (fun row =>
          (Entries.get? (p.2.answerRow .index none row) "published_at").map Value.plainText) =
            [some "2026-01-01T12:00:00.500000"])) = some true := by
    decide +kernel
  obtain ⟨⟨registry, r⟩, hregister, hruns⟩ := exists_of_toOption_map hfacts
  obtain ⟨⟨⟨hhooks, hcollection⟩, hfiltering⟩, htexts⟩ : ((r.hooks = [] ∧ r.collection? = none) ∧
      r.options.filtering = ⟨true, "filter", ["published_at"]⟩) ∧
      (r.createdPost.state.store.rows Posts.model).map (fun row =>
        (Entries.get? (r.answerRow .index none row) "published_at").map Value.plainText) =
          [some "2026-01-01T12:00:00.500000"] := by
    simpa only [Bool.and_eq_true, List.isEmpty_iff, Option.isNone_iff_eq_none,
      decide_eq_true_eq] using hruns
  have hmodel : r.model = Posts.model := Registry.model_of_register hregister
  have hm := mem_postsSchema_of_register hregister rfl
  have hbytes : (WriteRequest.create timedPost).HasNoBytes := by
    rintro entries hentries
    cases hentries
    simp
  have hstate : Conforming postsSchema r.createdPost.state :=
    .perform (.empty 0) hm (hooksKeep_of_nil hhooks) noon hbytes
  obtain ⟨row, hrow, htext⟩ : ∃ row ∈ r.createdPost.state.store.rows Posts.model,
      (Entries.get? (r.answerRow .index none row) "published_at").map Value.plainText =
        some "2026-01-01T12:00:00.500000" := by
    apply List.mem_map.1
    rw [htexts]
    exact List.mem_singleton.2 rfl
  obtain ⟨v, hshown, hplain⟩ := Option.map_eq_some_iff.1 htext
  have hgives : Gives r.createdPost.state.store r.base r.model row := by
    rw [base, hcollection, Option.getD_none]
    exact gives_all (by rwa [hmodel])
  have hfield : "published_at" ∈ r.options.filtering.fields := by
    rw [hfiltering]
    exact List.mem_singleton.2 rfl
  have hcolumn : r.model.column? "published_at" = some Posts.model.columns[4] := by
    rw [hmodel]
    rfl
  have hnull : v ≠ .null := by
    rintro rfl
    exact absurd hplain (by decide)
  have hregular : ∀ m ∈ postsSchema.models, m.Regular := by
    intro m hmem
    rw [List.mem_singleton.1 hmem]
    exact regular_posts
  have hfound := shown_values_find hregister hregular hstate hm (by rw [hfiltering])
    (by rw [hfiltering]) hgives hfield hcolumn rfl hshown hnull
  rw [hplain] at hfound
  exact ⟨registry, r, row, hregister, ⟨v, hshown, hplain⟩, hfound⟩

/-! ### What is shown and not found -/

/-- Games, with a score and a remark. -/
def games : Model where
  name := "Game"
  table := "games"
  columns := [(Column.plain "id" .integer).asKey, (Column.plain "score" .integer).orNull,
    (Column.plain "remark" .text).orNull]

/-- A resource of games that can be filtered by both. -/
def filteredGames : Registration where
  name := .text "games"
  model := games
  options := .map [("filtering", .map [("enabled", .bool true),
    ("filterable_fields", Posts.texts ["score", "remark"])])]
  permitted := Posts.texts ["score", "remark"]
  indexFields := .null
  showFields := .null
  hooks := []
  collection? := none

/-- A hook that gives a game a text for its score. -/
def textScore : Hook := fun input => .ok (.null, Entries.put "score" (.text "1_000") input.record)

def threeGames : Select := { Select.all games with limit? := some 3 }

def unscoredGames : Select :=
  { Select.all games with clauses := [.isNull (.column ((Column.plain "score" .integer).orNull))] }

/-- Whether a resource filters by a field of a kind with texts. -/
def filtersBy (r : Resource) (field : String) : Bool :=
  r.options.filtering.enabled && r.options.filtering.filterParam == "filter" &&
    r.options.filtering.fields.contains field &&
      (r.model.column? field).any fun c => c.kind.isSpelled

/-- Whether the first record of a payload is created, and is then not found by the value that its
answer shows in a field. -/
def misses (r : Resource) (payload : Value) (field : String) : Bool :=
  let out := r.create noon payload ⟨Store.empty [r.model], 0⟩
  match out.result.toOption.bind (Entries.get? · field) with
  | none => false
  | some v => !v.isNull &&
    match shown out.state.store r.options.unpaged (Params.parse [filterItem field v.plainText])
      r.base with
    | .ok here => here.rows.isEmpty
    | .error _ => true

/-- A record is not always found by what is shown of it: not where a hook gave a column of integers
a text, where the collection has a window or leaves the record out, or where a column of texts was
given bytes. -/
theorem created_missed :
    (∃ registry r, Registry.register []
        { filteredGames with hooks := [(.text "before_create", some textScore)] } =
          .ok (registry, r) ∧ r.filtersBy "score" = true ∧ r.misses (.map []) "score" = true) ∧
      (∃ registry r, Registry.register [] { filteredGames with collection? := some threeGames } =
        .ok (registry, r) ∧ r.filtersBy "score" = true ∧
          r.misses (.map [("score", .int 5)]) "score" = true) ∧
      (∃ registry r, Registry.register [] { filteredGames with collection? := some unscoredGames } =
        .ok (registry, r) ∧ r.filtersBy "score" = true ∧
          r.misses (.map [("score", .int 5)]) "score" = true) ∧
      ∃ registry r, Registry.register [] filteredGames = .ok (registry, r) ∧
        r.filtersBy "remark" = true ∧ r.misses (.map [("remark", .bytes [120])]) "remark" = true := by
  have hmisses {g : Registration} {payload : Value} {field : String}
      (h : (Registry.register [] g).toOption.map (fun p =>
        p.2.filtersBy field && p.2.misses payload field) = some true) :
      ∃ registry r, Registry.register [] g = .ok (registry, r) ∧ r.filtersBy field = true ∧
        r.misses payload field = true := by
    obtain ⟨⟨registry, r⟩, hregister, hruns⟩ := exists_of_toOption_map h
    exact ⟨registry, r, hregister, Bool.and_eq_true_iff.1 hruns⟩
  exact ⟨hmisses (by decide +kernel), hmisses (by decide +kernel), hmisses (by decide +kernel),
    hmisses (by decide +kernel)⟩

end Resource

end TableApi
