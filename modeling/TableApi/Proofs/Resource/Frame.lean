import Mathlib.Data.List.Induction
import TableApi.Proofs.Resource.Named
import TableApi.Proofs.Resource.Run

/-! What the requests to a resource without hooks can change. A new row is made of the payload and
of defaults, a change touches one row and in it only what the payload names, and so a column that
requests may not write keeps what it got with its row. -/

namespace TableApi.Resource

variable {r : Resource} {now : Calendar.Moment} {payload address : Value} {before : State}
  {after : Store}

/-! ### One request -/

/-- A creation adds the record that the hook in front leaves, when the one behind leaves it alone. -/
theorem Creation.inserted_of_leavesAlone (c : Creation r now payload before after)
    (hafter : r.LeavesAlone .afterCreate now) :
    before.store.insert ⟨now, before.drawn⟩ r.model c.record = .ok (after, c.row) := by
  obtain ⟨-, hstore, hrow⟩ := c.settled hafter
  exact c.inserted.trans (by rw [hstore, hrow])

/-- Without hooks around it a creation adds the cleaned payload. -/
theorem Creation.inserted_of_hook?_none (c : Creation r now payload before after)
    (hbefore : r.hook? .beforeCreate = none) (hafter : r.hook? .afterCreate = none) :
    before.store.insert ⟨now, before.drawn⟩ r.model c.clean = .ok (after, c.row) := by
  rw [← c.record_of_hook?_none hbefore]
  exact c.inserted_of_leavesAlone (leavesAlone_of_hook?_none hafter now)

/-- Without hooks around it a change writes the cleaned payload over the record that was found. -/
theorem Change.written_of_hook?_none {store : Store} (c : Change r now address payload store after)
    (hbefore : r.hook? .beforeUpdate = none) (hafter : r.hook? .afterUpdate = none) :
    store.update now r.model c.found (Record.ofRow r.model c.found)
      (Entries.putAll (Record.ofRow r.model c.found) c.clean) = .ok (after, c.row) := by
  have hpassed := (runHook_of_hook?_none hbefore _).symm.trans c.passed
  obtain ⟨-, hrecord⟩ := Prod.mk.inj (Except.ok.inj hpassed)
  obtain ⟨-, hstore, hrow⟩ := c.settled (leavesAlone_of_hook?_none hafter now)
  change Entries.putAll _ _ = c.record at hrecord
  rw [hrecord]
  exact c.written.trans (by rw [hstore, hrow])

/-- A row was added for a payload: it names permitted fields, and the columns of all other fields
have their defaults. -/
structure Created (r : Resource) (now : Calendar.Moment) (payload : Value) (before : State)
    (after : Store) (row : Row) : Prop where
  placed : Store.Placed r.model before.store after (before.store.rows r.model) row
  permitted : ∀ field ∈ namedFields payload, field ∈ r.permitted
  defaults : ∀ c ∈ r.model.columns, c.field ∉ namedFields payload →
    row.cell c.name =
      Store.defaultCell ⟨now, before.drawn⟩ r.model (before.store.rows r.model) c

/-- A row was changed into another one for a payload: it names permitted fields, and the columns of
all other fields are kept, except those that keep the time of changes. -/
structure Changed (r : Resource) (payload : Value) (before after : Store) (row next : Row) :
    Prop where
  placed : Store.Placed r.model before after (Store.without row (before.rows r.model)) next
  permitted : ∀ field ∈ namedFields payload, field ∈ r.permitted
  keeps : ∀ c ∈ r.model.columns, c.field ∉ namedFields payload → c.stampedOnUpdate = false →
    next.cell c.name = row.cell c.name

theorem Creation.created (c : Creation r now payload before after) (hhooks : r.hooks = [])
    (hnames : (r.model.columns.map Column.name).Nodup) :
    Created r now payload before after c.row where
  placed := c.placed
  permitted := namedFields_subset_of_sanitize c.sanitized
  defaults d hd hunnamed := by
    rw [← keys_of_sanitize c.sanitized] at hunnamed
    have hinserted := c.inserted_of_hook?_none (hook?_of_hooks_nil hhooks _)
      (hook?_of_hooks_nil hhooks _)
    exact Store.cell_of_insert_unset hnames hinserted hd (Entries.get?_eq_none_iff.2 hunnamed)

theorem Change.changes {store : Store} (c : Change r now address payload store after)
    (hhooks : r.hooks = []) (hnames : (r.model.columns.map Column.name).Nodup) :
    Changed r payload store after c.found c.row where
  placed := c.placed
  permitted := namedFields_subset_of_sanitize c.sanitized
  keeps d hd hunnamed hstamped := by
    rw [← keys_of_sanitize c.sanitized] at hunnamed
    have hwritten := c.written_of_hook?_none (hook?_of_hooks_nil hhooks _)
      (hook?_of_hooks_nil hhooks _)
    refine Store.cell_of_update_same hnames hwritten hd ?_ hstamped
    rw [Record.value, Record.value, Entries.get?_putAll_of_notMem hunnamed]

/-- What a request changes: a creation adds one row, a change replaces the row at its address, a
destruction takes that out, and everything else changes nothing. -/
def Frames (r : Resource) (now : Calendar.Moment) (request : Request) (before : State)
    (out : Outcome (Option (Entries Value))) : Prop :=
  match request, out.result with
  | .write (.create payload), .ok _ => ∃ row, Created r now payload before out.state.store row
  | .write (.update address payload), .ok _ => ∃ row next, r.find before.store address = .ok row ∧
      Changed r payload before.store out.state.store row next
  | .write (.destroy address), .ok _ => ∃ row, r.find before.store address = .ok row ∧
      row ∈ before.store.rows r.model ∧
      out.state.store =
        before.store.setRows r.model (Store.without row (before.store.rows r.model))
  | _, _ => out.state.store = before.store

variable {σ : Schema} {state : State}

theorem serve_frames (hhooks : r.hooks = []) (hnames : (r.model.columns.map Column.name).Nodup)
    (hs : state.store.Sound σ) (hm : r.model ∈ σ.models) (now : Calendar.Moment)
    (request : Request) : r.Frames now request state (r.serve now request state) := by
  have h := serves_of_sound hs hm now request
  unfold Frames
  generalize (r.serve now request state).result = result,
    (r.serve now request state).state.store = after at h ⊢
  cases h with
  | listed => rfl
  | shown => rfl
  | failed request e => cases request <;> rfl
  | lostCreation c hlost => exact absurd (c.isNamed_of_hooks_nil (σ.keyed _ hm) hhooks) hlost
  | lostChange c hlost => exact absurd (c.isNamed_of_hooks_nil (σ.keyed _ hm) hhooks) hlost
  | created c => exact ⟨c.row, c.created hhooks hnames⟩
  | changed c => exact ⟨c.found, c.row, c.at_address, c.changes hhooks hnames⟩
  | destroyed c =>
    exact ⟨c.row, c.at_address, mem_rows_of_find c.at_address, Store.setRows_of_delete c.deleted⟩

/-! ### Runs -/

/-- The life of a row over a run: `origin` is the row as it was put into the table, or as it was
there before the run, and `row` is what became of it. -/
inductive Lives (r : Resource) (state : State) :
    List (Calendar.Moment × Request) → (origin row : Row) → Prop where
  | start {row : Row} (hrow : row ∈ state.store.rows r.model) : Lives r state [] row row
  | created {requests : List (Calendar.Moment × Request)} {now : Calendar.Moment}
      {payload : Value} {after : Store} (c : Creation r now payload (r.run state requests) after) :
      Lives r state (requests ++ [(now, .write (.create payload))]) c.row c.row
  | stays {requests : List (Calendar.Moment × Request)} {q : Calendar.Moment × Request}
      {origin row : Row} (h : Lives r state requests origin row)
      (hrow : row ∈ (r.run state (requests ++ [q])).store.rows r.model) :
      Lives r state (requests ++ [q]) origin row
  | changed {requests : List (Calendar.Moment × Request)} {now : Calendar.Moment}
      {address payload : Value} {after : Store} {origin : Row}
      (c : Change r now address payload (r.run state requests).store after)
      (h : Lives r state requests origin c.found) :
      Lives r state (requests ++ [(now, .write (.update address payload))]) origin c.row

/-- Every row that is there after a run has lived through it, by induction over the requests. -/
theorem exists_lives (hs : state.store.Sound σ) (hm : r.model ∈ σ.models)
    (requests : List (Calendar.Moment × Request)) :
    ∀ row ∈ (r.run state requests).store.rows r.model, ∃ origin, r.Lives state requests origin row := by
  induction requests using List.reverseRecOn with
  | nil => exact fun row hrow => ⟨row, .start hrow⟩
  | append_singleton requests q ih =>
    obtain ⟨now, request⟩ := q
    intro row hrow
    have hbefore := sound_run hs hm requests
    -- A row that was there before the last request goes on as it is.
    have hstays (h : row ∈ (r.run state requests).store.rows r.model) :
        ∃ origin, r.Lives state (requests ++ [(now, request)]) origin row := by
      obtain ⟨origin, hlives⟩ := ih row h
      exact ⟨origin, .stays hlives hrow⟩
    have hafter := hrow
    have hserves := serves_of_sound hbefore hm now request
    rw [run_concat] at hafter
    generalize (r.serve now request (r.run state requests)).result = result,
      (r.serve now request (r.run state requests)).state.store = after at hserves hafter
    cases hserves with
    | listed => exact hstays hafter
    | shown => exact hstays hafter
    | failed => exact hstays hafter
    | lostCreation c | created c =>
      rw [c.placed.rows hbefore hm] at hafter
      rcases Store.mem_insertRow.1 hafter with rfl | hold
      · exact ⟨c.row, .created c⟩
      · exact hstays hold
    | lostChange c | changed c =>
      rw [c.placed.rows hbefore hm] at hafter
      rcases Store.mem_insertRow.1 hafter with rfl | hold
      · obtain ⟨origin, hlives⟩ := ih c.found c.mem
        exact ⟨origin, .changed c hlives⟩
      · exact hstays (List.mem_filter.1 hold).1
    | destroyed c =>
      rw [c.rows_eq hbefore hm] at hafter
      exact hstays (List.mem_filter.1 hafter).1

/-- A column that requests may not write and that does not keep the time of changes has through the
whole life of a row what the row began with. -/
theorem cell_of_lives (hhooks : r.hooks = []) (hnames : (r.model.columns.map Column.name).Nodup)
    {requests : List (Calendar.Moment × Request)} {origin row : Row}
    (h : r.Lives state requests origin row) {c : Column} (hc : c ∈ r.model.columns)
    (hpermitted : c.field ∉ r.permitted) (hstamped : c.stampedOnUpdate = false) :
    row.cell c.name = origin.cell c.name := by
  induction h with
  | start _ => rfl
  | created _ => rfl
  | stays _ _ ih => exact ih
  | changed change _ ih =>
    have hchanged := change.changes hhooks hnames
    rw [← ih]
    exact hchanged.keeps c hc (fun hnamed => hpermitted (hchanged.permitted _ hnamed)) hstamped

/-- Requests to a resource without hooks change one row at a time and in it only what their payload
names, and over any run of them a column that they may not write keeps what its row began with. -/
theorem no_mass_assignment (hhooks : r.hooks = [])
    (hnames : (r.model.columns.map Column.name).Nodup) (hm : r.model ∈ σ.models)
    (hstate : Reachable σ state) :
    (∀ now request, r.Frames now request state (r.serve now request state)) ∧
      ∀ requests,
        (∀ row ∈ (r.run state requests).store.rows r.model,
          ∃ origin, r.Lives state requests origin row) ∧
        ∀ origin row, r.Lives state requests origin row →
          ∀ c ∈ r.model.columns, c.field ∉ r.permitted → c.stampedOnUpdate = false →
            row.cell c.name = origin.cell c.name := by
  have hs := sound_of_reachable hstate
  refine ⟨serve_frames hhooks hnames hs hm, fun requests => ⟨exists_lives hs hm requests, ?_⟩⟩
  intro origin row hlives c hc hpermitted hstamped
  exact cell_of_lives hhooks hnames hlives hc hpermitted hstamped

def plainPosts : Registration := { Posts.registration with hooks := [] }

/-- A post is created and gets another title, at first in a request that also names the time of its
creation. -/
def retitling : List (Calendar.Moment × Request) := [
  (noon, .write (.create publishedPost)),
  (noon.daysEarlier 1, .write (.update (.text "1") (.map [("title", .text "Second"),
    ("created_at", .null)]))),
  (noon.daysEarlier 2, .write (.update (.text "1") (.map [("title", .text "Second")])))]

/-- The post with its new title keeps the time of its creation. -/
theorem created_at_of_retitled : ∃ registry r, Registry.register [] plainPosts = .ok (registry, r) ∧
    ∃ row ∈ (r.run ⟨Store.empty [Posts.model], 0⟩ retitling).store.rows Posts.model,
      row.cell "title" = .text "Second" ∧
        ∃ origin, r.Lives ⟨Store.empty [Posts.model], 0⟩ retitling origin row ∧
          row.cell "created_at" = origin.cell "created_at" := by
  have hfacts : (Registry.register [] plainPosts).toOption.map (fun p =>
      (p.2.hooks.isEmpty, p.2.permitted, ((p.2.run ⟨Store.empty [Posts.model], 0⟩ retitling).store.rows
        Posts.model).map fun row => row.cell "title")) =
        some (true, ["title", "content", "status", "published_at"], [.text "Second"]) := by
    decide +kernel
  obtain ⟨⟨registry, r⟩, hregister, hlists⟩ := exists_of_toOption_map hfacts
  obtain ⟨hhooks, hpermitted, htitles⟩ : r.hooks = [] ∧
      r.permitted = ["title", "content", "status", "published_at"] ∧
      ((r.run ⟨Store.empty [Posts.model], 0⟩ retitling).store.rows Posts.model).map
        (fun row => row.cell "title") = [.text "Second"] := by
    simpa using hlists
  have hmodel : r.model = Posts.model := Registry.model_of_register hregister
  obtain ⟨row, hrow, htitle⟩ : ∃ row ∈ (r.run ⟨Store.empty [Posts.model], 0⟩ retitling).store.rows
      Posts.model, row.cell "title" = .text "Second" := by
    apply List.mem_map.1
    rw [htitles]
    exact List.mem_singleton.2 rfl
  have hm := mem_postsSchema_of_register hregister rfl
  have hnames : (r.model.columns.map Column.name).Nodup := by
    rw [hmodel]
    decide
  have hstate : Reachable postsSchema ⟨Store.empty [Posts.model], 0⟩ := .empty 0
  obtain ⟨-, hrun⟩ := no_mass_assignment hhooks hnames hm hstate
  obtain ⟨hlives, hkeeps⟩ := hrun retitling
  obtain ⟨origin, horigin⟩ := hlives row (by rwa [hmodel])
  refine ⟨registry, r, hregister, row, hrow, htitle, origin, horigin, ?_⟩
  obtain ⟨c, hc, hname, hfield, hstamped⟩ : ∃ c ∈ r.model.columns, c.name = "created_at" ∧
      c.field ∉ r.permitted ∧ c.stampedOnUpdate = false := by
    rw [hmodel, hpermitted]
    exact ⟨Posts.model.columns[5], List.getElem_mem _, rfl, by decide, rfl⟩
  rw [← hname]
  exact hkeeps origin row horigin c hc hfield hstamped

end TableApi.Resource
