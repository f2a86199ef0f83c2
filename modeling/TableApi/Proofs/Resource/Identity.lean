import TableApi.Proofs.Resource.Frame
import TableApi.Proofs.Resource.Registrations

/-! What payloads can do to the key of a row. Registration refuses permitted fields that have the
name of a key column. A key column whose field has such a name too is out of reach for payloads: a
change keeps its cell, and a new row gets it by default. A key column whose field is named otherwise
can be permitted and written. -/

namespace TableApi.Resource

variable {r : Resource} {now : Calendar.Moment} {payload address : Value} {before : State}
  {after : Store} {σ : Schema} {state : State}

/-- A key column whose field has the name of a key column. -/
def NamesKey (m : Model) (c : Column) : Prop :=
  c ∈ m.primaryKey ∧ c.field ∈ m.primaryKey.map Column.name

theorem NamesKey.mem {m : Model} {c : Column} (h : NamesKey m c) : c ∈ m.columns :=
  (List.mem_filter.1 h.1).1

theorem not_permitted_of_register {registry registry' : Registry} {g : Registration}
    (hregister : Registry.register registry g = .ok (registry', r)) :
    ∀ field ∈ r.permitted, field ∉ r.model.primaryKey.map Column.name := by
  obtain ⟨name, hdefine⟩ := Registry.exists_define_of_register hregister
  have d := Registry.defines_of_define hdefine
  rw [d.model]
  exact fun field hfield => (Registry.of_readPermitted d.permitted field hfield).2

/-- Without hooks a change keeps the cell of a column that the payload does not name, or gives it
the time where it keeps the time of changes. -/
theorem Change.cell_of_unnamed {store : Store} (c : Change r now address payload store after)
    (hhooks : r.hooks = []) (hnames : (r.model.columns.map Column.name).Nodup) {d : Column}
    (hd : d ∈ r.model.columns) (hunnamed : d.field ∉ namedFields payload) :
    c.row.cell d.name = c.found.cell d.name ∨
      d.stampedOnUpdate = true ∧ c.row.cell d.name = d.kept (.moment now) := by
  rw [← keys_of_sanitize c.sanitized] at hunnamed
  have hwritten := c.written_of_hook?_none (hook?_of_hooks_nil hhooks _)
    (hook?_of_hooks_nil hhooks _)
  have hsame : Record.value (Entries.putAll (Record.ofRow r.model c.found) c.clean) d.field =
      Record.value (Record.ofRow r.model c.found) d.field := by
    rw [Record.value, Record.value, Entries.get?_putAll_of_notMem hunnamed]
  rcases Store.cell_of_update_cases hnames hwritten hd with hkept | ⟨hdiffers, -⟩ | hstamped
  · exact Or.inl hkept
  · rw [hsame, Store.differs_self] at hdiffers
    cases hdiffers
  · exact Or.inr hstamped

/-- The row at an address became another one that has its key columns, save those that keep the time
of changes, and all other rows are as they were. -/
structure KeepsKey (r : Resource) (now : Calendar.Moment) (address : Value) (before after : Store)
    (found next : Row) : Prop where
  at_address : r.find before address = .ok found
  mem : found ∈ before.rows r.model
  rows : after.rows r.model = Store.insertRow next (Store.without found (before.rows r.model))
  keeps : ∀ d, NamesKey r.model d → next.cell d.name = found.cell d.name ∨
    d.stampedOnUpdate = true ∧ next.cell d.name = d.kept (.moment now)

/-- A row was added that has in its key columns what every row would get that is added then. -/
structure DrawsKey (r : Resource) (now : Calendar.Moment) (before : State) (after : Store)
    (row : Row) : Prop where
  rows : after.rows r.model = Store.insertRow row (before.store.rows r.model)
  drawn : ∀ d, NamesKey r.model d → row.cell d.name =
    Store.defaultCell ⟨now, before.drawn⟩ r.model (before.store.rows r.model) d

theorem Change.keepsKey (c : Change r now address payload before.store after)
    (hs : before.store.Sound σ) (hm : r.model ∈ σ.models) (hhooks : r.hooks = [])
    (hnames : (r.model.columns.map Column.name).Nodup)
    (hkeys : ∀ d, NamesKey r.model d → d.field ∉ r.permitted) :
    KeepsKey r now address before.store after c.found c.row where
  at_address := c.at_address
  mem := c.mem
  rows := c.placed.rows hs hm
  keeps d hd := c.cell_of_unnamed hhooks hnames hd.mem fun hnamed =>
    hkeys d hd (namedFields_subset_of_sanitize c.sanitized _ hnamed)

theorem Creation.drawsKey (c : Creation r now payload before after)
    (hs : before.store.Sound σ) (hm : r.model ∈ σ.models) (hhooks : r.hooks = [])
    (hnames : (r.model.columns.map Column.name).Nodup)
    (hkeys : ∀ d, NamesKey r.model d → d.field ∉ r.permitted) :
    DrawsKey r now before after c.row where
  rows := c.placed.rows hs hm
  drawn d hd := (c.created hhooks hnames).defaults d hd.mem fun hnamed =>
    hkeys d hd (namedFields_subset_of_sanitize c.sanitized _ hnamed)

/-- No permitted field of a registered resource has the name of a key column. So a key column whose
field is named like one is out of reach for payloads: without hooks a change keeps its cell and a
new row draws it, whatever the payload is. -/
theorem payloads_leave_key {registry registry' : Registry} {g : Registration}
    (hregister : Registry.register registry g = .ok (registry', r))
    (hnames : (r.model.columns.map Column.name).Nodup) (hm : r.model ∈ σ.models)
    (hstate : Reachable σ state) :
    (∀ field ∈ r.permitted, field ∉ r.model.primaryKey.map Column.name) ∧
      (∀ c, NamesKey r.model c → c.field ∉ r.permitted) ∧
      (r.hooks = [] → ∀ now,
        (∀ address payload answer, (r.update now address payload state).result = .ok answer →
          ∃ found next, KeepsKey r now address state.store
            (r.update now address payload state).state.store found next) ∧
        ∀ payload answer, (r.create now payload state).result = .ok answer →
          ∃ row, DrawsKey r now state (r.create now payload state).state.store row) := by
  have hs := sound_of_reachable hstate
  have hpermitted := not_permitted_of_register hregister
  have hkeys : ∀ c, NamesKey r.model c → c.field ∉ r.permitted :=
    fun c hc hfield => hpermitted c.field hfield hc.2
  refine ⟨hpermitted, hkeys, fun hhooks now => ⟨?_, ?_⟩⟩
  · intro address payload answer hok
    obtain ⟨c, -⟩ := (update_of_sound hs hm now address payload).of_ok hok
    exact ⟨c.found, c.row, c.keepsKey hs hm hhooks hnames hkeys⟩
  · intro payload answer hok
    obtain ⟨c, -⟩ := (create_of_sound hs hm now payload).of_ok hok
    exact ⟨c.row, c.drawsKey hs hm hhooks hnames hkeys⟩

def firstPost (r : Resource) : Outcome (Entries Value) :=
  r.create noon publishedPost ⟨Store.empty [Posts.model], 0⟩

def retitledPost (r : Resource) : Outcome (Entries Value) :=
  r.update noon (.text "1") (.map [("title", .text "Second")]) r.firstPost.state

/-- The first post gets the first number, and keeps it under its new title. -/
theorem number_of_retitledPost : ∃ registry r,
    Registry.register [] plainPosts = .ok (registry, r) ∧ "id" ∉ r.permitted ∧
      (∃ row, DrawsKey r noon ⟨Store.empty [Posts.model], 0⟩ r.firstPost.state.store row ∧
        row.cell "id" = .integer 1) ∧
      ∃ found next, KeepsKey r noon (.text "1") r.firstPost.state.store r.retitledPost.state.store
        found next ∧ next.cell "id" = found.cell "id" := by
  have hfacts : (Registry.register [] plainPosts).toOption.map (fun p =>
      p.2.hooks.isEmpty && p.2.firstPost.result.toOption.isSome &&
        p.2.retitledPost.result.toOption.isSome) = some true := by
    decide +kernel
  obtain ⟨⟨registry, r⟩, hregister, hruns⟩ := exists_of_toOption_map hfacts
  obtain ⟨⟨hhooks, hcreated⟩, hupdated⟩ : (r.hooks = [] ∧
      r.firstPost.result.toOption.isSome = true) ∧
        r.retitledPost.result.toOption.isSome = true := by
    simpa only [Bool.and_eq_true, List.isEmpty_iff] using hruns
  have hmodel : r.model = Posts.model := Registry.model_of_register hregister
  have hm := mem_postsSchema_of_register hregister rfl
  have hnames : (r.model.columns.map Column.name).Nodup := by
    rw [hmodel]
    decide
  have hkey : NamesKey r.model Posts.model.columns[0] := by
    rw [hmodel]
    exact ⟨List.mem_filter.2 ⟨List.getElem_mem _, rfl⟩, by decide⟩
  have hempty : Reachable postsSchema ⟨Store.empty [Posts.model], 0⟩ := .empty 0
  have hfirst : Reachable postsSchema r.firstPost.state :=
    .perform hempty hm noon (.create publishedPost)
  obtain ⟨answer, hanswer⟩ := exists_of_isSome_toOption hcreated
  obtain ⟨answer', hanswer'⟩ := exists_of_isSome_toOption hupdated
  obtain ⟨-, hkeys, hcreate⟩ := payloads_leave_key hregister hnames hm hempty
  obtain ⟨-, -, hupdate⟩ := payloads_leave_key hregister hnames hm hfirst
  obtain ⟨row, hrow⟩ := (hcreate hhooks noon).2 publishedPost answer hanswer
  obtain ⟨found, next, hnext⟩ := (hupdate hhooks noon).1 _ _ answer' hanswer'
  refine ⟨registry, r, hregister, hkeys _ hkey, ⟨row, hrow, ?_⟩, found, next, hnext, ?_⟩
  · refine (hrow.drawn _ hkey).trans ?_
    rw [hmodel]
    rfl
  · exact (hnext.keeps _ hkey).resolve_right fun hstamped => absurd hstamped.1 (by decide)

/-- Accounts, whose key column has a field of another name. -/
def accounts : Model where
  name := "Account"
  table := "accounts"
  columns := [((Column.plain "pk" .integer).named "id").asKey, Column.plain "email" .text]

/-- A resource of accounts that permits the field of their key. -/
def keyedAccounts : Registration where
  name := .text "accounts"
  model := accounts
  options := .null
  permitted := Posts.texts ["pk", "email"]
  indexFields := .null
  showFields := .null
  hooks := []
  collection? := none

/-- An account is created with a number of its own choice, which a later payload replaces. -/
def renumbering : List (Calendar.Moment × Request) := [
  (noon, .write (.create (.map [("pk", .int 5), ("email", .text "a@b.c")]))),
  (noon, .write (.update (.text "5") (.map [("pk", .int 7)])))]

/-- The field of a key column is permitted under its other name, and payloads choose and change the
key. -/
theorem key_of_renumbered : ∃ registry r,
    Registry.register [] keyedAccounts = .ok (registry, r) ∧ r.hooks = [] ∧ "pk" ∈ r.permitted ∧
      (r.model.column? "pk").map Column.primaryKey = some true ∧
      ((r.run ⟨Store.empty [accounts], 0⟩ (renumbering.take 1)).store.rows accounts).map
        (fun row => row.cell "id") = [.integer 5] ∧
      ((r.run ⟨Store.empty [accounts], 0⟩ renumbering).store.rows accounts).map
        (fun row => row.cell "id") = [.integer 7] := by
  have hfacts : (Registry.register [] keyedAccounts).toOption.map (fun p =>
      decide (p.2.hooks.isEmpty ∧ "pk" ∈ p.2.permitted ∧
        (p.2.model.column? "pk").map Column.primaryKey = some true ∧
        ((p.2.run ⟨Store.empty [accounts], 0⟩ (renumbering.take 1)).store.rows accounts).map
          (fun row => row.cell "id") = [.integer 5] ∧
        ((p.2.run ⟨Store.empty [accounts], 0⟩ renumbering).store.rows accounts).map
          (fun row => row.cell "id") = [.integer 7])) = some true := by
    decide +kernel
  obtain ⟨⟨registry, r⟩, hregister, hruns⟩ := exists_of_toOption_map hfacts
  obtain ⟨hhooks, hrest⟩ := of_decide_eq_true hruns
  exact ⟨registry, r, hregister, List.isEmpty_iff.1 hhooks, hrest⟩

end TableApi.Resource
