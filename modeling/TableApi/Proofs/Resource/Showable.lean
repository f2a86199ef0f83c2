import TableApi.Proofs.Resource.Listed
import TableApi.Proofs.Resource.Readings
import TableApi.Proofs.Resource.Scope
import TableApi.Proofs.Store.Showable

/-! Answers that can be sent. A column takes any float and any decimal, the infinite ones and those
beyond the floats too, and keeps them as cells that no answer in strict JSON can show. Such a value
is accepted, and then neither the answer to its own request nor any later one that shows its row can
be sent. As long as requests and hooks bring in no such value, everything that is answered can be
sent. -/

namespace TableApi

namespace Resource

open Web

variable {σ : Schema} {r : Resource} {row : Row} {action : Action} {requested : Option String}

/-! ### Answers -/

theorem isCompliant_answerRow (h : row.IsShowable r.model) :
    isCompliant (.map (r.answerRow action requested row)) = true := isCompliant_selectFields h _

def Shows (r : Resource) (action : Action) (requested : Option String) (field : String) : Prop :=
  ∀ fields, r.shownFields? action requested = some fields → field ∈ fields

/-- An answer that shows a cell which cannot be shown cannot be sent. -/
theorem isCompliant_answerRow_eq_false {field : String} {c : Column}
    (hcolumn : r.model.column? field = some c) (hshows : r.Shows action requested field)
    (hcell : (row.cell c.name).isShowable c.kind = false) :
    isCompliant (.map (r.answerRow action requested row)) = false := by
  have hentry : (field, ((row.cell c.name).load c.kind).plain) ∈ r.answerRow action requested row := by
    have hplain : (field, ((row.cell c.name).load c.kind).plain) ∈
        plainFields r.model (Record.ofRow r.model row) := by
      refine List.mem_map.2 ⟨field, ?_, by rw [Record.value_ofRow hcolumn]⟩
      rw [← Model.field_of_column? hcolumn]
      exact List.mem_map_of_mem (List.mem_of_find?_eq_some hcolumn)
    unfold answerRow answer selectFields
    split
    · exact hplain
    · next fields hfields => exact List.mem_filter.2 ⟨hplain, by simpa using hshows fields hfields⟩
  rw [Bool.eq_false_iff, Ne, isCompliant, entriesCompliant_iff]
  intro hall
  exact Bool.false_ne_true (hcell.symm.trans (hall _ hentry))

theorem areCompliant_shownRows_iff {rows : List Row} :
    areCompliant (r.shownRows requested rows) = true ↔
      ∀ row ∈ rows, isCompliant (.map (r.answerRow .index requested row)) = true := by
  rw [areCompliant_iff, shownRows, List.forall_mem_map]

theorem isCompliant_index_iff {params answer : Entries Value} {store : Store}
    (hkeys : r.options.totals.rowsKey ≠ r.options.totals.totalKey) {l : Listing}
    (hl : Listing.compile store r.options params r.base = .ok l)
    (h : r.index params requested store = .ok answer) : isCompliant (.map answer) = true ↔
      ∀ row ∈ l.page.rowsOf store, isCompliant (.map (r.answerRow .index requested row)) = true := by
  rw [← areCompliant_shownRows_iff]
  obtain ⟨l', hl', -, rfl⟩ := index_eq_ok_iff.1 h
  obtain rfl : l' = l := Except.ok.inj (hl'.symm.trans hl)
  unfold listed
  cases l'.total? with
  | none => simp [isCompliant, entriesCompliant]
  | some n => simp [isCompliant, entriesCompliant, Entries.put, hkeys]

/-- A listing of rows that can be shown can be sent, whatever its keys are. -/
theorem isCompliant_index {params answer : Entries Value} {store : Store}
    (hbase : r.base.model? = some r.model)
    (hrows : ∀ row ∈ store.rows r.model, row.IsShowable r.model)
    (h : r.index params requested store = .ok answer) : isCompliant (.map answer) = true := by
  obtain ⟨l, hl, -, rfl⟩ := index_eq_ok_iff.1 h
  have hshown : areCompliant (r.shownRows requested (l.page.rowsOf store)) = true :=
    areCompliant_shownRows_iff.2 fun row hrow =>
      isCompliant_answerRow (hrows row (Listing.mem_rows_of_page hbase hl row hrow))
  rw [isCompliant, entriesCompliant_iff]
  intro entry hentry
  unfold listed at hentry
  cases htotal : l.total? with
  | none =>
    rw [htotal] at hentry
    rw [List.mem_singleton.1 hentry]
    exact hshown
  | some n =>
    rw [htotal] at hentry
    rcases Entries.of_mem_put hentry with rfl | hold
    · rfl
    · rw [List.mem_singleton.1 hold]
      exact hshown

/-! ### Writes -/

/-- Whether a payload brings nothing into a record that spoils its column, as far as it is
accepted. -/
def spares (r : Resource) (payload : Value) (isUpdate : Bool) : Bool :=
  match r.sanitize payload isUpdate with
  | .ok clean => clean.all fun entry => (r.model.column? entry.1).all fun c => !entry.2.spoils c.kind
  | .error _ => true

section Payloads

variable {payload : Value} {isUpdate : Bool} {clean : Record} {c : Column}

theorem isShowable_of_mem_sanitize (hm : r.model.IsShowable)
    (h : r.sanitize payload isUpdate = .ok clean) (hspares : r.spares payload isUpdate = true)
    (hc : c ∈ r.model.columns) {x : Value} (hx : (c.field, x) ∈ clean) :
    (c.kept x).isShowable c.kind = true := by
  have hcolumn := hm.column?_field hc
  obtain ⟨entries, -, -, hclean⟩ := of_sanitize h
  obtain ⟨d, v, hd, hcleaned⟩ := exists_of_mem_cleanAll hclean hx
  obtain rfl : d = c := Option.some.inj (hd.symm.trans hcolumn)
  unfold spares at hspares
  rw [h] at hspares
  have hspared := List.all_eq_true.1 hspares _ hx
  simp only [hcolumn, Option.all_some] at hspared
  rw [isShowable_kept (accepts_of_cleanValue hcleaned), hspared]

theorem isShowable_of_sanitize (hm : r.model.IsShowable)
    (h : r.sanitize payload isUpdate = .ok clean) (hspares : r.spares payload isUpdate = true) :
    clean.IsShowable r.model := by
  intro c hc
  rw [Record.value]
  cases hget : Entries.get? clean c.field with
  | none => exact isShowable_kept_null c
  | some x => exact isShowable_of_mem_sanitize hm h hspares hc (Entries.mem_of_get?_eq_some hget)

end Payloads

/-- Hooks that leave every value as it is, or put in one that is kept as a cell that can be
shown. -/
def HooksSpare (r : Resource) : Prop := ∀ point input goesOn record,
  r.runHook point input = .ok (goesOn, record) → ∀ c ∈ r.model.columns,
    record.value c.field = input.record.value c.field ∨
      (c.kept (record.value c.field)).isShowable c.kind = true

theorem hooksSpare_of_nil (h : r.hooks = []) : r.HooksSpare := by
  intro point input goesOn record hrun c _
  simp only [runHook, hook?, h, List.lookup_nil] at hrun
  cases hrun
  exact Or.inl rfl

theorem HooksSpare.of_differs (h : r.HooksSpare) {point : HookPoint} {input : HookInput}
    {goesOn : Bool} {record : Record} (hrun : r.runHook point input = .ok (goesOn, record)) :
    ∀ c ∈ r.model.columns,
      Store.differs (input.record.value c.field) (record.value c.field) = true →
        (c.kept (record.value c.field)).isShowable c.kind = true := by
  intro c hc hdiffers
  rcases h _ _ _ _ hrun c hc with hsame | hshown
  · rw [hsame, Store.differs_self] at hdiffers
    cases hdiffers
  · exact hshown

section Accounts

variable {now : Calendar.Moment} {payload address : Value} {before : State} {after store : Store}

/-- A created row can be shown, by the steps that made it. -/
theorem Creation.isShowable (a : Creation r now payload before after) (hm : r.model.IsShowable)
    (hhooks : r.HooksSpare) (hspares : r.spares payload false = true) :
    a.row.IsShowable r.model := by
  have hclean := isShowable_of_sanitize hm a.sanitized hspares
  have hrecord : a.record.IsShowable r.model := by
    intro c hc
    rcases hhooks _ _ _ _ a.passed c hc with hsame | hshown
    · rw [hsame]
      exact hclean c hc
    · exact hshown
  have hadded := Store.isShowable_of_insert hm hrecord a.inserted
  exact Store.isShowable_of_update hm hadded (hhooks.of_differs a.followed) a.updated

/-- A changed row can be shown when the row that was found can. -/
theorem Change.isShowable (a : Change r now address payload store after) (hm : r.model.IsShowable)
    (hhooks : r.HooksSpare) (hspares : r.spares payload true = true)
    (hfound : a.found.IsShowable r.model) : a.row.IsShowable r.model := by
  have hrecord : ∀ c ∈ r.model.columns,
      Store.differs ((Record.ofRow r.model a.found).value c.field) (a.record.value c.field) = true →
        (c.kept (a.record.value c.field)).isShowable c.kind = true := by
    intro c hc hdiffers
    rcases hhooks _ _ _ _ a.passed c hc with hsame | hshown
    · -- The hook left alone what the payload made of the value.
      rw [hsame] at hdiffers ⊢
      rcases Entries.get?_putAll_cases a.clean (Record.ofRow r.model a.found) c.field with
        hold | ⟨x, hx, hnew⟩
      · rw [Record.value, Record.value, hold, Store.differs_self] at hdiffers
        cases hdiffers
      · rw [Record.value, hnew, Option.getD_some]
        exact isShowable_of_mem_sanitize hm a.sanitized hspares hc hx
    · exact hshown
  have hflushed := Store.isShowable_of_update hm hfound hrecord a.written
  exact Store.isShowable_of_update hm hflushed (hhooks.of_differs a.followed) a.updated

end Accounts

/-! ### States -/

/-- Whether a request brings nothing into a record that spoils its column. -/
def WriteRequest.Spares (r : Resource) : WriteRequest → Prop
  | .create payload => r.spares payload false = true
  | .update _ payload => r.spares payload true = true
  | .destroy _ => True

variable {state : State}

/-- One request keeps the rows of all tables so that they can be shown. -/
theorem isShowable_perform (hs : state.store.Sound σ) (hm : r.model ∈ σ.models)
    (hmodel : r.model.IsShowable) (hhooks : r.HooksSpare)
    (hstore : state.store.Holds fun m row => row.IsShowable m) (now : Calendar.Moment)
    {request : WriteRequest} (hspares : request.Spares r) :
    (r.perform now request state).state.store.Holds fun m row => row.IsShowable m := by
  refine holds_perform hs hm hstore ?_ ?_
  · rintro payload after rfl a
    exact a.isShowable hmodel hhooks hspares
  · rintro address payload after rfl a hfound
    exact a.isShowable hmodel hhooks hspares hfound

/-- The states of a service in which nothing was ever written that spoils a column: records that are
kept as cells that can be shown are put into its tables, and requests that bring in nothing else are
done to resources whose hooks do not either. -/
inductive Spared (σ : Schema) : State → Prop where
  | empty (drawn : Nat) : Spared σ ⟨Store.empty σ.models, drawn⟩
  | insert {state : State} {supply : Supply} {m : Model} {record : Record} {store : Store}
      {row : Row} (h : Spared σ state) (hm : m ∈ σ.models) (hrecord : record.IsShowable m)
      (hinsert : state.store.insert supply m record = .ok (store, row)) (drawn : Nat) :
      Spared σ ⟨store, drawn⟩
  | perform {state : State} {r : Resource} (h : Spared σ state) (hm : r.model ∈ σ.models)
      (hhooks : r.HooksSpare) (now : Calendar.Moment) {request : WriteRequest}
      (hspares : request.Spares r) : Spared σ (r.perform now request state).state

theorem reachable_of_spared (h : Spared σ state) : Reachable σ state := by
  induction h with
  | empty drawn => exact .empty drawn
  | insert _ hm _ hinsert drawn ih => exact .insert ih hm hinsert drawn
  | perform _ hm _ now _ ih => exact .perform ih hm now _

/-- In every such state all rows can be shown, by induction over the way to it. -/
theorem holds_of_spared (hσ : ∀ m ∈ σ.models, m.IsShowable) (h : Spared σ state) :
    state.store.Holds fun m row => row.IsShowable m := by
  induction h with
  | empty drawn => exact Store.holds_empty σ.models
  | insert h hm hrecord hinsert drawn ih =>
    have hs := sound_of_reachable (reachable_of_spared h)
    exact ih.placed hs hm (Store.placed_of_insert hs hm hinsert) (fun _ h => h)
      (Store.isShowable_of_insert (hσ _ hm) hrecord hinsert)
  | perform h hm hhooks now hspares ih =>
    exact isShowable_perform (sound_of_reachable (reachable_of_spared h)) hm (hσ _ hm) hhooks ih
      now hspares

/-! ### Requests -/

/-- Whatever a resource answers in a state has a form in strict JSON, as long as the requests that
write bring in nothing that spoils a column. -/
structure AnswersComply (r : Resource) (state : State) : Prop where
  shows : ∀ address requested answer, r.show_ address requested state.store = .ok answer →
    isCompliant (.map answer) = true
  lists : r.base.model? = some r.model → ∀ params requested answer,
    r.index params requested state.store = .ok answer → isCompliant (.map answer) = true
  creates : ∀ now payload answer, r.spares payload false = true →
    (r.create now payload state).result = .ok answer → isCompliant (.map answer) = true
  updates : ∀ now address payload answer, r.spares payload true = true →
    (r.update now address payload state).result = .ok answer → isCompliant (.map answer) = true

/-- A row of a store with a field that cannot be shown: no answer that shows this field of the row
has a form in strict JSON, and neither has a listing with the row on its page. -/
structure IsSpoiled (r : Resource) (store : Store) (field : String) (row : Row) : Prop where
  mem : row ∈ store.rows r.model
  answers : ∀ action requested, r.Shows action requested field →
    isCompliant (.map (r.answerRow action requested row)) = false
  lists : r.options.totals.rowsKey ≠ r.options.totals.totalKey →
    ∀ params requested l answer, r.Shows .index requested field →
      Listing.compile store r.options params r.base = .ok l → row ∈ l.page.rowsOf store →
        r.index params requested store = .ok answer → isCompliant (.map answer) = false

theorem isSpoiled_of_cell {store : Store} {field : String} {c : Column}
    (hcolumn : r.model.column? field = some c) (hmem : row ∈ store.rows r.model)
    (hcell : (row.cell c.name).isShowable c.kind = false) : r.IsSpoiled store field row where
  mem := hmem
  answers _ _ hshows := isCompliant_answerRow_eq_false hcolumn hshows hcell
  lists hkeys _ _ _ _ hshows hl hrow hanswer := by
    rw [Bool.eq_false_iff, Ne, isCompliant_index_iff hkeys hl hanswer]
    intro hall
    exact Bool.false_ne_true
      ((isCompliant_answerRow_eq_false hcolumn hshows hcell).symm.trans (hall row hrow))

/-- A value that spoils its column is kept by a creation that accepts it, when the hooks leave its
field alone: the creation itself has no answer that can be sent, and neither has what shows its row
later. -/
theorem isSpoiled_of_create (hs : state.store.Sound σ) (hm : r.model ∈ σ.models)
    (hnames : (r.model.columns.map Column.name).Nodup) {field : String} {c : Column}
    (hcolumn : r.model.column? field = some c) (hleaves : r.HooksLeave c) {now : Calendar.Moment}
    {entries : Entries Value} {answer : Entries Value}
    (hcreated : (r.create now (.map entries) state).result = .ok answer) {v x : Value}
    (hv : Entries.get? entries field = some v) (hx : cleanValue c v = .ok x)
    (hspoils : x.spoils c.kind = true) : isCompliant (.map answer) = false ∧
      ∃ row, r.IsSpoiled (r.create now (.map entries) state).state.store field row := by
  obtain ⟨cr, rfl, -⟩ := (create_of_sound hs hm now (.map entries)).of_ok hcreated
  have hnull : x.isNull = false := by
    cases x with
    | null =>
      rw [Value.spoils_null] at hspoils
      cases hspoils
    | _ => rfl
  have hnumber : r.model.rowNumber?.map Column.name ≠ some c.name := by
    intro hname
    have hkey := Store.rowNumber?_of_name hnames (List.mem_of_find?_eq_some hcolumn) hname
    rw [(Model.soleKey?_of_rowNumber? hkey).2] at hspoils
    cases hspoils
  have hcell : (cr.row.cell c.name).isShowable c.kind = false := by
    rw [cr.cell_eq_kept hnames hcolumn hleaves hnumber hv hx hnull,
      isShowable_kept (accepts_of_cleanValue hx), hspoils]
    rfl
  exact ⟨isCompliant_answerRow_eq_false hcolumn (fun _ h => by cases h) hcell,
    cr.row, isSpoiled_of_cell hcolumn (cr.placed.mem hs hm) hcell⟩

/-- The answers that can be sent, over every run of requests. While nothing is written that spoils a
column, everything that is answered has a form in strict JSON: every float in it is finite. A value
that spoils its column is accepted all the same, and the row that keeps it cannot be shown from then
on. -/
theorem answers_comply_until_spoiled (hσ : ∀ m ∈ σ.models, m.IsShowable) (h : Spared σ state)
    (hm : r.model ∈ σ.models) (hhooks : r.HooksSpare) : r.AnswersComply state ∧
      ∀ field c, r.model.column? field = some c → r.HooksLeave c → ∀ now entries answer,
        (r.create now (.map entries) state).result = .ok answer →
          ∀ v x, Entries.get? entries field = some v → cleanValue c v = .ok x →
            x.spoils c.kind = true → isCompliant (.map answer) = false ∧
              ∃ row, r.IsSpoiled (r.create now (.map entries) state).state.store field row := by
  have hs := sound_of_reachable (reachable_of_spared h)
  have hrows := (holds_of_spared hσ h).rows hs hm
  have hmodel := hσ _ hm
  refine ⟨⟨?_, ?_, ?_, ?_⟩, ?_⟩
  · intro address requested answer hshow
    rw [show_eq] at hshow
    cases hfind : r.find state.store address with
    | error e =>
      rw [hfind] at hshow
      cases hshow
    | ok row =>
      rw [hfind] at hshow
      cases hshow
      exact isCompliant_answerRow (hrows row (mem_rows_of_find hfind))
  · intro hbase params requested answer hindex
    exact isCompliant_index hbase hrows hindex
  · intro now payload answer hspares hok
    obtain ⟨a, rfl, -⟩ := (create_of_sound hs hm now payload).of_ok hok
    exact isCompliant_answerRow (a.isShowable hmodel hhooks hspares)
  · intro now address payload answer hspares hok
    obtain ⟨a, rfl, -⟩ := (update_of_sound hs hm now address payload).of_ok hok
    exact isCompliant_answerRow (a.isShowable hmodel hhooks hspares (hrows _ a.mem))
  · intro field c hcolumn hleaves now entries answer hcreated v x hv hx hspoils
    exact isSpoiled_of_create hs hm hmodel.names hcolumn hleaves hcreated hv hx hspoils

/-! ### Rated films -/

/-- Films with a rating among the floats and a price among the decimals. -/
def filmModel : Model where
  name := "Film"
  table := "films"
  columns := [(Column.plain "id" .integer).asKey, (Column.plain "rating" .float).orNull,
    (Column.plain "price" .numeric).orNull]

def films : Registration where
  name := .text "films"
  model := filmModel
  options := .null
  permitted := Posts.texts ["rating", "price"]
  indexFields := .null
  showFields := .null
  hooks := []
  collection? := none

theorem keyed_films : filmModel.Keyed := Model.keyed_of_id (by decide) (by decide) rfl

def filmsSchema : Schema := ⟨[filmModel], by decide, by simpa using keyed_films⟩

def ratedFilm : Value := .map [("rating", .text "4.5"), ("price", .text "9.99")]

def endlessFilm : Value := .map [("rating", .text "inf")]

/-- A film that is created when there is none. -/
def createdFilm (r : Resource) (payload : Value) : Outcome (Entries Value) :=
  r.create noon payload ⟨Store.empty filmsSchema.models, 0⟩

/-- What is answered after the creation of a film can be sent when the film has a finite rating. -/
theorem answers_comply_ratedFilm : ∃ registry r answer listed,
    Registry.register [] films = .ok (registry, r) ∧
      (∀ m ∈ filmsSchema.models, m.IsShowable) ∧ r.model ∈ filmsSchema.models ∧ r.HooksSpare ∧
      Spared filmsSchema (r.createdFilm ratedFilm).state ∧
      (r.createdFilm ratedFilm).result = .ok answer ∧
      r.AnswersComply (r.createdFilm ratedFilm).state ∧
      r.index [] none (r.createdFilm ratedFilm).state.store = .ok listed ∧
      isCompliant (.map listed) = true := by
  have hfacts : (Registry.register [] films).toOption.map (fun p =>
      p.2.hooks.isEmpty && p.2.collection?.isNone && p.2.spares ratedFilm false &&
        (p.2.createdFilm ratedFilm).result.toOption.isSome &&
        (p.2.index [] none (p.2.createdFilm ratedFilm).state.store).toOption.isSome) =
      some true := by
    decide +kernel
  obtain ⟨⟨registry, r⟩, hregister, hruns⟩ := exists_of_toOption_map hfacts
  simp only [Bool.and_eq_true, List.isEmpty_iff, Option.isNone_iff_eq_none] at hruns
  obtain ⟨⟨⟨⟨hhooks, hcollection⟩, hspares⟩, hcreated⟩, hlisted⟩ := hruns
  obtain ⟨answer, hanswer⟩ := exists_of_isSome_toOption hcreated
  obtain ⟨listed, hindex⟩ := exists_of_isSome_toOption hlisted
  have hm : r.model ∈ filmsSchema.models := by
    rw [Registry.model_of_register hregister]
    exact List.mem_singleton.2 rfl
  have hmodels : ∀ m ∈ filmsSchema.models, m.IsShowable := by
    intro m hmem
    rw [List.mem_singleton.1 hmem]
    exact Model.isShowable_of_none (by decide) (by decide) (by decide)
  have hrequest : (WriteRequest.create ratedFilm).Spares r := hspares
  have hspared : Spared filmsSchema (r.createdFilm ratedFilm).state :=
    .perform (.empty 0) hm (hooksSpare_of_nil hhooks) noon hrequest
  have hcomply := (answers_comply_until_spoiled hmodels hspared hm (hooksSpare_of_nil hhooks)).1
  have hbase : r.base.model? = some r.model := by
    rw [base, hcollection]
    rfl
  exact ⟨registry, r, answer, listed, hregister, hmodels, hm, hooksSpare_of_nil hhooks, hspared,
    hanswer, hcomply, hindex, hcomply.lists hbase _ _ _ hindex⟩

/-- A film with an infinite rating is created; the answer to its creation has no form in strict
JSON, and neither have the answers that show or list it later. -/
theorem endlessFilm_spoils : ∃ registry r answer shown listed,
    Registry.register [] films = .ok (registry, r) ∧
      (r.createdFilm endlessFilm).result = .ok answer ∧
      r.show_ (.text "1") none (r.createdFilm endlessFilm).state.store = .ok shown ∧
      r.index [] none (r.createdFilm endlessFilm).state.store = .ok listed ∧
      isCompliant (.map answer) = false ∧ isCompliant (.map shown) = false ∧
      isCompliant (.map listed) = false := by
  have hfacts : (Registry.register [] films).toOption.map (fun p =>
      let complies (x : Except ServiceError (Entries Value)) :=
        x.toOption.map fun answer => isCompliant (.map answer)
      let store := (p.2.createdFilm endlessFilm).state.store
      (complies (p.2.createdFilm endlessFilm).result, complies (p.2.show_ (.text "1") none store),
        complies (p.2.index [] none store))) = some (some false, some false, some false) := by
    decide +kernel
  obtain ⟨⟨registry, r⟩, hregister, hruns⟩ := exists_of_toOption_map hfacts
  simp only [Prod.mk.injEq] at hruns
  obtain ⟨hcreated, hshown, hlisted⟩ := hruns
  obtain ⟨answer, hanswer, hfirst⟩ := exists_of_toOption_map hcreated
  obtain ⟨shown, hshow, hsecond⟩ := exists_of_toOption_map hshown
  obtain ⟨listed, hindex, hthird⟩ := exists_of_toOption_map hlisted
  exact ⟨registry, r, answer, shown, listed, hregister, hanswer, hshow, hindex, hfirst, hsecond,
    hthird⟩

end Resource

end TableApi
