import TableApi.Posts.Resource
import TableApi.Proofs.Listing.Pages
import TableApi.Proofs.Listing.Terms
import TableApi.Proofs.Posts.History
import TableApi.Proofs.Resource.Frame
import TableApi.Proofs.Resource.Listed

/-! What requests do to posts. A creation adds a row with the next number and the texts of its
payload, a change gives a row the texts of its payload and keeps its number, and answers show the
texts and the number of their row. -/

namespace TableApi.Posts

open Resource

/-! ### The resource -/

/-- The listing options of posts. -/
def listing : Options where
  pagination := ⟨true, "page", "size", ⟨10, Nat.le_add_left 1 9⟩, ⟨50, by decide⟩⟩
  sorting := ⟨true, "sort", .ascending, ["id", "title", "created_at", "updated_at"]⟩
  searching := ⟨true, "q", ["title", "content"]⟩
  filtering := ⟨true, "filter", ["status"]⟩
  totals := ⟨true, "rows", "total"⟩

/-- The resource of posts, under whatever name. -/
structure IsPosts (r : Resource) : Prop where
  model : r.model = model
  options : r.options = listing
  permitted : r.permitted = ["title", "content", "status", "published_at"]
  showFields : r.showFields? = none
  hooks : r.hooks = [(.beforeCreate, beforeCreate), (.afterCreate, afterCreate)]
  collection : r.collection? = none

theorem isPosts_of_register {registry registry' : Registry} {r : Resource}
    (h : Registry.register registry registration = .ok (registry', r)) : IsPosts r := by
  obtain ⟨name, hname, hdefine⟩ := Registry.exists_readName_of_register h
  have d := Registry.defines_of_define hdefine
  have hposts : Registry.readName registration.name = .ok "posts" := rfl
  rw [hposts] at hname
  cases hname
  have hresolved : (Options.resolve registration.options).toOption = some listing := by
    decide +kernel
  have hlist : (Registry.readPermitted "posts" model registration.permitted).toOption =
      some ["title", "content", "status", "published_at"] := by
    decide +kernel
  have hpermitted := d.permitted
  rw [d.options] at hresolved
  rw [show registration.model = model from rfl] at hpermitted
  rw [hpermitted] at hlist
  exact ⟨d.model, Option.some.inj hresolved, Option.some.inj hlist,
    (Except.ok.inj d.showFields).symm, (Except.ok.inj d.hooks).symm, d.collection⟩

def idColumn : Column := (Column.plain "id" .integer).asKey

theorem rowNumber?_model : model.rowNumber? = some idColumn := rfl

theorem names_nodup : (model.columns.map Column.name).Nodup := by decide

/-- A column of posts that holds texts: it is named like its field, does not keep the time of
changes, and may be left out of a payload only when it has a text by default. -/
structure IsText (c : Column) : Prop where
  found : model.column? c.field = some c
  name : c.name = c.field
  kind : c.kind = .text
  stamped : c.stampedOnUpdate = false
  plain : c.primaryKey = false ∧ c.name ≠ "id"
  needed : c.field ≠ "status" → c.mayBeOmitted = false
  draft : ∀ supply : Supply, c.field = "status" →
    c.default?.map supply.value = some (.text "draft")

theorem exists_isText {field : String} (h : field ∈ textFields) :
    ∃ c, c.field = field ∧ IsText c := by
  simp only [textFields, List.mem_cons, List.not_mem_nil, or_false] at h
  rcases h with rfl | rfl | rfl
  · exact ⟨model.columns[1], rfl, rfl, rfl, rfl, rfl, by decide, fun _ => rfl,
      fun _ h => absurd h (by decide)⟩
  · exact ⟨model.columns[2], rfl, rfl, rfl, rfl, rfl, by decide, fun _ => rfl,
      fun _ h => absurd h (by decide)⟩
  · exact ⟨model.columns[3], rfl, rfl, rfl, rfl, rfl, by decide, fun h => absurd rfl h,
      fun _ _ => rfl⟩

theorem IsText.mem {c : Column} (h : IsText c) : c ∈ model.columns :=
  List.mem_of_find?_eq_some h.found

theorem IsText.kept {c : Column} (h : IsText c) (s : String) : c.kept (.text s) = .text s := by
  rw [Column.kept, h.kind]
  rfl

/-- A cleaned payload has the texts that the payload names. -/
theorem get?_clean {r : Resource} (hr : IsPosts r) {payload : Value} {isUpdate : Bool}
    {clean : Record} (hclean : r.sanitize payload isUpdate = .ok clean) (htextual : Textual payload)
    {c : Column} (hc : IsText c) (hfield : c.field ∈ textFields) :
    Entries.get? clean c.field = (textNamed? payload c.field).map .text := by
  obtain ⟨entries, rfl, -, hall⟩ := of_sanitize hclean
  rw [hr.model] at hall
  rcases get?_cleanAll hall c.field with ⟨hnone, hget⟩ | ⟨d, v, x, hd, hv, hx, hget⟩
  · rw [hget, textNamed?, hnone]
    rfl
  · obtain ⟨s, rfl⟩ := htextual.2 entries rfl c.field hfield v hv
    obtain rfl : c = d := Option.some.inj (hc.found.symm.trans hd)
    rw [cleanValue_text hc.kind] at hx
    cases hx
    rw [hget, textNamed?, hv]
    rfl

/-! ### Creating -/

variable {r : Resource} {now : Calendar.Moment} {payload address : Value} {before : State}
  {after : Store}

/-- The hook in front of a creation lets it go on and sets at most the time of publication. -/
theorem exists_of_beforeCreate (input : HookInput) :
    ∃ record, beforeCreate input = .ok (.bool true, record) ∧
      ∀ field, Entries.get? record field = Entries.get? input.record field ∨
        field = "published_at" ∧ Entries.get? record field = some (.moment input.now) := by
  unfold beforeCreate
  simp only
  split
  · split
    · refine ⟨_, rfl, fun field => ?_⟩
      rw [Entries.get?_put]
      split
      · next hfield => exact .inr ⟨hfield.symm, rfl⟩
      · exact .inl rfl
    · exact ⟨_, rfl, fun _ => .inl rfl⟩
  · exact ⟨_, rfl, fun _ => .inl rfl⟩

theorem hook?_beforeCreate {r : Resource} (hr : IsPosts r) :
    r.hook? .beforeCreate = some beforeCreate := by
  rw [hook?, hr.hooks]
  rfl

theorem hook?_afterCreate {r : Resource} (hr : IsPosts r) :
    r.hook? .afterCreate = some afterCreate := by
  rw [hook?, hr.hooks]
  rfl

theorem hook?_beforeUpdate {r : Resource} (hr : IsPosts r) : r.hook? .beforeUpdate = none := by
  rw [hook?, hr.hooks]
  rfl

theorem hook?_afterUpdate {r : Resource} (hr : IsPosts r) : r.hook? .afterUpdate = none := by
  rw [hook?, hr.hooks]
  rfl

theorem leavesAlone_afterCreate (hr : IsPosts r) (now : Calendar.Moment) :
    r.LeavesAlone .afterCreate now := by
  intro store known
  rw [runHook, hook?_afterCreate hr]
  exact ⟨_, rfl⟩

theorem leavesAlone_afterUpdate (hr : IsPosts r) (now : Calendar.Moment) :
    r.LeavesAlone .afterUpdate now :=
  leavesAlone_of_hook?_none (hook?_afterUpdate hr) now

/-- A post is created of the cleaned payload, in which the hook changed at most the time of
publication. -/
theorem record_of_creation (hr : IsPosts r) (c : Creation r now payload before after)
    {field : String} (hfield : field ≠ "published_at") :
    Entries.get? c.record field = Entries.get? c.clean field := by
  obtain ⟨left, hleft, hkeeps⟩ := exists_of_beforeCreate ⟨now, before.store, c.clean⟩
  have hpassed := c.passed
  simp only [runHook, hook?_beforeCreate hr, hleft] at hpassed
  obtain ⟨-, hrecord⟩ := Prod.mk.inj (Except.ok.inj hpassed)
  rw [← hrecord]
  exact (hkeeps field).resolve_right fun h => hfield h.1

theorem inserted_of_creation (hr : IsPosts r) (c : Creation r now payload before after) :
    before.store.insert ⟨now, before.drawn⟩ model c.record = .ok (after, c.row) := by
  rw [← hr.model]
  exact c.inserted_of_leavesAlone (leavesAlone_afterCreate hr now)

theorem id_notMem_keys (hr : IsPosts r) {isUpdate : Bool} {clean : Record}
    (h : r.sanitize payload isUpdate = .ok clean) : "id" ∉ Entries.keys clean := by
  intro hid
  rw [keys_of_sanitize h] at hid
  have hpermitted := namedFields_subset_of_sanitize h "id" hid
  rw [hr.permitted] at hpermitted
  exact absurd hpermitted (by decide)

/-- The row of a post, with all its columns, a number that the store can hold, and texts. -/
structure Holds (row : Row) (text? : String → Option String) : Prop where
  columns : Entries.keys row.cells = model.columns.map Column.name
  fits : Number.fitsStore row.number = true
  texts : ∀ field ∈ textFields, ∃ s, text? field = some s ∧ row.cell field = .text s

theorem sent?_idColumn {record : Record} (hunset : Entries.get? record "id" = none)
    (supply : Supply) : record.sent? supply idColumn = none := by
  rw [Record.sent?, show idColumn.field = "id" from rfl, hunset]
  rfl

theorem id_of_creation (hr : IsPosts r) (c : Creation r now payload before after) :
    Entries.get? c.record "id" = none := by
  rw [record_of_creation hr c (by decide), Entries.get?_eq_none_iff]
  exact id_notMem_keys hr c.sanitized

theorem number_of_creation (hr : IsPosts r) (c : Creation r now payload before after) :
    c.row.number = Store.nextNumber (before.store.rows model) ∧
      Number.fitsStore c.row.number = true := by
  have hsent := sent?_idColumn (id_of_creation hr c) ⟨now, before.drawn⟩
  rcases Store.number_of_insert names_nodup (inserted_of_creation hr c) rowNumber?_model with
    h | ⟨-, hnumber⟩
  · rw [hsent] at h
    cases h
  · exact hnumber

theorem isNamed_of_creation (hr : IsPosts r) (c : Creation r now payload before after) :
    c.IsNamed := by
  refine c.isNamed (hr.model ▸ keyed_posts) (fun d hd v hv => ?_) (leavesAlone_afterCreate hr now)
  obtain rfl : idColumn = d := Option.some.inj ((hr.model ▸ rowNumber?_model).symm.trans hd)
  cases (id_of_creation hr c).symm.trans hv

/-- The payload of a new post names every text that has no default. -/
theorem exists_textNamed?_of_needed (hr : IsPosts r) {clean : Record}
    (hclean : r.sanitize payload false = .ok clean) (htextual : Textual payload) {c : Column}
    (hc : IsText c) (hfield : c.field ∈ textFields) (hneeded : c.field ≠ "status") :
    ∃ s, textNamed? payload c.field = some s := by
  have hpermitted : c.field ∈ r.permitted := by
    rw [hr.permitted]
    exact List.mem_append_left ["published_at"] hfield
  have hfound : r.model.column? c.field = some c := by rw [hr.model, hc.found]
  have hnamed := named_of_sanitize hclean hpermitted hfound (hc.needed hneeded)
  cases payload with
  | map entries =>
    cases hget : Entries.get? entries c.field with
    | none => exact absurd hnamed (Entries.get?_eq_none_iff.1 hget)
    | some v =>
      obtain ⟨s, rfl⟩ := htextual.2 entries rfl c.field hfield v hget
      exact ⟨s, by rw [textNamed?, hget]⟩
  | _ => cases hnamed

/-- A created post has the texts of its payload, and is a draft when the payload does not say. -/
theorem holds_of_creation (hr : IsPosts r) (c : Creation r now payload before after)
    (htextual : Textual payload) : Holds c.row fun field =>
      (textNamed? payload field).or (if field = "status" then some "draft" else none) := by
  have hinserted := inserted_of_creation hr c
  refine ⟨?_, (number_of_creation hr c).2, ?_⟩
  · obtain ⟨-, hcells, -⟩ := Store.of_insert hinserted
    rw [hcells, Entries.keys, List.map_map]
    rfl
  · intro field hfield
    obtain ⟨d, rfl, hd⟩ := exists_isText hfield
    have hpublished : d.field ≠ "published_at" := fun h => absurd (h ▸ hfield) (by decide)
    have hget :=
      (record_of_creation hr c hpublished).trans (get?_clean hr c.sanitized htextual hd hfield)
    -- The text that is sent is the named one, or the default of the status.
    obtain ⟨s, htext, hsent⟩ : ∃ s, (textNamed? payload d.field).or
        (if d.field = "status" then some "draft" else none) = some s ∧
          c.record.sent? ⟨now, before.drawn⟩ d = some (.text s) := by
      cases hnamed : textNamed? payload d.field with
      | some s =>
        rw [hnamed] at hget
        exact ⟨s, rfl, by rw [Record.sent?, hget, Option.map_some]⟩
      | none =>
        by_cases hstatus : d.field = "status"
        · rw [hnamed] at hget
          have hdraft := hd.draft ⟨now, before.drawn⟩ hstatus
          have hdefault : d.default?.isSome = true := by
            rw [← Option.isSome_map, hdraft]
            rfl
          refine ⟨"draft", by rw [if_pos hstatus]; rfl, ?_⟩
          rw [Record.sent?, hget, Option.map_none]
          simp only [hdefault, if_true, hdraft]
        · obtain ⟨s, hs⟩ := exists_textNamed?_of_needed hr c.sanitized htextual hd hfield hstatus
          rw [hnamed] at hs
          cases hs
    refine ⟨s, htext, ?_⟩
    have hnumbered : model.rowNumber?.map Column.name ≠ some d.name := fun h =>
      hd.plain.2 (Option.some.inj h).symm
    rw [← hd.name, Store.cell_of_insert names_nodup hinserted hd.mem, if_neg hnumbered, hsent,
      Option.map_some, Option.getD_some, hd.kept]

/-! ### Changing -/

variable {σ : Schema} {store : Store}

theorem written_of_change (hr : IsPosts r) (c : Change r now address payload store after) :
    store.update now model c.found (Record.ofRow model c.found)
      (Entries.putAll (Record.ofRow model c.found) c.clean) = .ok (after, c.row) := by
  rw [← hr.model]
  exact c.written_of_hook?_none (hook?_beforeUpdate hr) (hook?_afterUpdate hr)

theorem isNamed_of_change (hr : IsPosts r) (c : Change r now address payload store after) :
    c.IsNamed :=
  c.isNamed (hr.model ▸ keyed_posts) (leavesAlone_afterUpdate hr now)

/-- A changed post keeps its number. -/
theorem number_of_change (hr : IsPosts r) (hs : store.Sound σ) (hm : r.model ∈ σ.models)
    (c : Change r now address payload store after) : c.row.number = c.found.number := by
  have hfound := hs.numbers hm c.found c.mem idColumn (by rw [hr.model]; rfl)
  have hrow := c.placed.numbers idColumn (by rw [hr.model]; rfl)
  have hkept : c.row.cell idColumn.name = c.found.cell idColumn.name := by
    refine Store.cell_of_update_same names_nodup (written_of_change hr c) List.mem_cons_self ?_ rfl
    have hunnamed : idColumn.field ∉ Entries.keys c.clean := id_notMem_keys hr c.sanitized
    rw [Record.value, Record.value, Entries.get?_putAll_of_notMem hunnamed]
  rw [hfound, hrow] at hkept
  exact Cell.integer.inj hkept

/-- A changed post has the texts of the payload, and its old texts where the payload names none. -/
theorem holds_of_change (hr : IsPosts r) (hs : store.Sound σ) (hm : r.model ∈ σ.models)
    (c : Change r now address payload store after) (htextual : Textual payload)
    {text? : String → Option String} (h : Holds c.found text?) :
    Holds c.row fun field => (textNamed? payload field).or (text? field) := by
  have hwritten := written_of_change hr c
  refine ⟨?_, ?_, ?_⟩
  · rw [Store.cells_of_update hwritten, Store.keys_withCells, h.columns]
  · rw [number_of_change hr hs hm c]
    exact h.fits
  · intro field hfield
    obtain ⟨d, rfl, hd⟩ := exists_isText hfield
    obtain ⟨old, htext, hcell⟩ := h.texts d.field hfield
    rw [← hd.name] at hcell
    have hbefore : Record.value (Record.ofRow model c.found) d.field = .text old := by
      rw [Record.value_ofRow hd.found, hcell, hd.kind]
      rfl
    have hafter : Record.value (Entries.putAll (Record.ofRow model c.found) c.clean) d.field =
        .text ((textNamed? payload d.field).getD old) := by
      have hkeys : (Entries.keys c.clean).Nodup := by
        rw [keys_of_sanitize c.sanitized]
        exact htextual.1
      rw [Record.value, Entries.get?_putAll hkeys, get?_clean hr c.sanitized htextual hd hfield]
      cases textNamed? payload d.field with
      | some s => rfl
      | none => exact hbefore
    have hrow : d.name ∈ Entries.keys c.found.cells := by
      rw [h.columns]
      exact List.mem_map_of_mem hd.mem
    refine ⟨(textNamed? payload d.field).getD old, ?_, ?_⟩
    · rw [htext]
      cases textNamed? payload d.field <;> rfl
    · have hnext := Store.cell_of_update_text names_nodup hwritten hd.mem hd.kind hd.stamped hrow
        hcell hbefore hafter
      rwa [hd.name] at hnext

/-! ### Answers -/

theorem answerRow_show (hr : IsPosts r) (row : Row) :
    r.answerRow .show_ none row = r.answerRow .write none row := by
  have hfields : r.fieldsFor .show_ = r.fieldsFor .write := hr.showFields
  simp only [answerRow, answer, shownFields?, hfields]

theorem get?_answerRow (hr : IsPosts r) {field : String} {c : Column}
    (hc : model.column? field = some c) (row : Row) :
    Entries.get? (r.answerRow .write none row) field =
      some ((row.cell c.name).load c.kind).plain := by
  have hanswer : r.answerRow .write none row = plainFields model (Record.ofRow model row) := by
    rw [← hr.model]
    rfl
  have hfield : model.fields.find? (· == field) = some field := by
    have hmem : field ∈ model.fields :=
      List.mem_map.2 ⟨c, List.mem_of_find?_eq_some hc, Model.field_of_column? hc⟩
    cases hfound : model.fields.find? (· == field) with
    | none => exact absurd (List.find?_eq_none.1 hfound field hmem) (by simp)
    | some found =>
      have hsame : found = field := by simpa using List.find?_some hfound
      rw [hsame]
  have hget := Entries.get?_map id
    (fun field => (Record.value (Record.ofRow model row) field).plain) model.fields field
  simp only [id_eq] at hget
  rw [hanswer, plainFields, hget, hfield, Option.map_some, Record.value_ofRow hc]

theorem get?_answerRow_id (hr : IsPosts r) {row : Row} (hrow : model.Numbers row) :
    Entries.get? (r.answerRow .write none row) "id" = some (.int row.number) := by
  rw [get?_answerRow hr (show model.column? "id" = some idColumn from rfl), hrow idColumn rfl]
  rfl

theorem Holds.get?_answerRow {row : Row} {text? : String → Option String} (h : Holds row text?)
    (hr : IsPosts r) {field : String} (hfield : field ∈ textFields) :
    ∃ s, text? field = some s ∧
      Entries.get? (r.answerRow .write none row) field = some (.text s) := by
  obtain ⟨c, rfl, hc⟩ := exists_isText hfield
  obtain ⟨s, hs, hcell⟩ := h.texts c.field hfield
  refine ⟨s, hs, ?_⟩
  rw [Posts.get?_answerRow hr hc.found, hc.name, hcell, hc.kind]
  rfl

/-! ### Effects -/

theorem effect_of_creation (hr : IsPosts r) (c : Creation r now payload before after) :
    effect ⟨.write (.create payload), .ok (some (r.answerRow .write none c.row))⟩ =
      .created c.row.number := by
  have hnumbers := c.placed.numbers
  rw [hr.model] at hnumbers
  simp only [effect, get?_answerRow_id hr hnumbers]

theorem effect_of_change (hr : IsPosts r) (hs : store.Sound σ) (hm : r.model ∈ σ.models)
    (c : Change r now address payload store after) {answer : Option (Entries Value)} :
    effect ⟨.write (.update address payload), .ok answer⟩ = .changed c.found.number := by
  obtain ⟨haddress, -⟩ := number_of_find hs hm (by rw [hr.model]; rfl) c.at_address
  simp only [effect, haddress, Option.elim_some]

theorem effect_of_removal (hr : IsPosts r) (hs : store.Sound σ) (hm : r.model ∈ σ.models)
    (c : Removal r address store after) {answer : Option (Entries Value)} :
    effect ⟨.write (.destroy address), .ok answer⟩ = .destroyed c.row.number := by
  obtain ⟨haddress, -⟩ := number_of_find hs hm (by rw [hr.model]; rfl) c.at_address
  simp only [effect, haddress, Option.elim_some]

/-! ### Listing -/

/-- Parameters that neither filter nor search, whatever page, size and order they ask for. -/
def Unfiltered (params : Entries Value) : Prop :=
  Listing.conditions listing params = [] ∧ Listing.searchText? listing.searching params = none

theorem exists_column_of_mem_orderTerms {params : Entries Value} {o : Ordered}
    (h : o ∈ Listing.orderTerms listing params (some model)) : ∃ c, o.term = .column c := by
  have hallowed : ∀ field ∈ listing.sorting.allowed, field ∈ model.fields := by decide
  obtain ⟨-, ⟨field, hfield, hterm⟩ | ⟨-, c, -, hterm⟩⟩ := Listing.of_mem_orderTerms h
  · obtain ⟨c, -, hc⟩ := Term.exists_ofField_eq_column (hallowed field hfield)
    exact ⟨c, hterm.trans hc⟩
  · exact ⟨c, hterm⟩

theorem refine_of_unfiltered {params : Entries Value} (h : Unfiltered params) :
    Listing.refine listing params (.all model) = .ok (Listing.extended (.all model) []
      (Listing.orderTerms listing params (some model))) := by
  rw [Listing.refine_eq_ok_iff rfl, h.1]
  refine ⟨[], rfl, ?_⟩
  simp only [Listing.searchClauses, h.2]
  rfl

section Ordering

variable {m : Model} {order : List Ordered}

theorem check_of_sorting (h : ∀ o ∈ order, ∃ c, o.term = .column c) (store : Store) :
    (Listing.extended (.all m) [] order).check store = .ok () := by
  refine Select.check_of_columns Output.noConfusion (fun p hp => absurd hp List.not_mem_nil) ?_
    (fun c hc => absurd hc List.not_mem_nil) store
  intro t ht
  obtain ⟨o, ho, rfl⟩ := List.mem_map.1 ht
  exact h o ho

theorem length_answersOf_of_no_clauses (m : Model) (order : List Ordered) (store : Store) :
    ((Listing.extended (.all m) [] order).answersOf store).length = (store.rows m).length := by
  set s := Listing.extended (.all m) [] order
  have hall : s.matching (s.source store) = store.rows m := List.filter_eq_self.2 fun _ _ => rfl
  calc (s.answersOf store).length
    _ = (s.matching (s.source store)).length := Select.length_answersOf rfl store
    _ = (store.rows m).length := by rw [hall]

end Ordering

theorem size_le (params : Entries Value) :
    (Window.ofParams listing.pagination params).size.val ≤ 50 :=
  max_le (Nat.min_le_right _ _) (by decide)

/-- A statement that runs can be listed: the answer has the rows of its page, and the count of all
its answers. -/
theorem index_of_check (hr : IsPosts r) {params : Entries Value} {s : Select}
    (hrefine : Listing.refine listing params (.all model) = .ok s)
    (hcheck : s.check store = .ok ()) (requested : Option String) :
    r.index params requested store = .ok [
      ("rows", .list (((Listing.paged listing.pagination params s).rowsOf store).map fun row =>
        .map (r.answerRow .index requested row))),
      ("total", .int (s.answersOf store).length)] := by
  obtain ⟨-, -, hwindow⟩ := Listing.refine_keeps rfl hrefine
  have hsize : Number.fitsStore (Window.ofParams listing.pagination params).size.val = true :=
    fitsStore_natCast.2 ((size_le params).trans (by decide))
  have hpage := (Listing.check_paged_iff rfl params hwindow store).2 ⟨hcheck, hsize⟩
  have hbase : r.base = .all model := by
    rw [base, hr.collection, hr.model]
    rfl
  have hcompile : Listing.compile store r.options params r.base =
      .ok ⟨Listing.paged listing.pagination params s, some (s.answersOf store).length⟩ := by
    rw [hbase, hr.options]
    exact (Listing.compile_eq_ok_iff rfl hrefine).2 ⟨hcheck, rfl⟩
  refine index_eq_ok_iff.2 ⟨_, hcompile, hpage, ?_⟩
  rw [listed, hr.options]
  rfl

/-- A listing that is not filtered answers, and its total counts all posts. -/
theorem index_of_unfiltered (hr : IsPosts r) {params : Entries Value} (h : Unfiltered params)
    (requested : Option String) (store : Store) :
    ∃ answer, r.index params requested store = .ok answer ∧
      Entries.get? answer "total" = some (.int (store.rows model).length) := by
  have hrefine := refine_of_unfiltered h
  have hcolumns : ∀ o ∈ Listing.orderTerms listing params (some model), ∃ c, o.term = .column c :=
    fun _ ho => exists_column_of_mem_orderTerms ho
  have hcheck := check_of_sorting (m := model) hcolumns store
  refine ⟨_, index_of_check hr hrefine hcheck requested, ?_⟩
  rw [length_answersOf_of_no_clauses]
  rfl

end TableApi.Posts
