import TableApi.Proofs.Store.Writes

/-! The cells that writes give a row. A new row keeps what was sent for it and has the defaults in
its other columns, and a change keeps every cell of a column whose value it leaves alone. -/

namespace TableApi

/-- What the store puts into a column that nothing is sent for. -/
def Column.storeDefault (c : Column) : Cell :=
  match c.serverDefault? with
  | some s => c.kind.affinity.stored (.text s)
  | none => .null

theorem Select.eq_boundCell_of_bindAll {ps : List (ParameterType × Value)} {position : Nat}
    {prepared : List Prepared} {cells : List Cell} (hprepared : prepareAll ps = .ok prepared)
    (hcells : bindAll position prepared = .ok cells) : cells = ps.map Clause.boundCell := by
  induction ps generalizing position prepared cells with
  | nil =>
    cases hprepared
    cases hcells
    rfl
  | cons p rest ih =>
    obtain ⟨type, v⟩ := p
    simp only [prepareAll] at hprepared
    cases hp : type.prepare v with
    | error e => simp [hp] at hprepared
    | ok first =>
      cases hr : prepareAll rest with
      | error e => simp [hp, hr, Except.map] at hprepared
      | ok more =>
        simp only [hp, hr, Except.map, Except.ok.injEq] at hprepared
        subst hprepared
        cases first with
        | wide => cases hcells
        | foreign kind => cases hcells
        | cell c =>
          cases hb : bindAll (position + 1) more with
          | error e => simp [bindAll, hb, Except.map] at hcells
          | ok others =>
            simp only [bindAll, hb, Except.map, Except.ok.injEq] at hcells
            rw [← hcells, ih hr hb, List.map_cons]
            simp [Clause.boundCell, hp]

namespace Store

variable {s s' : Store} {m : Model} {c : Column}

/-! ### What is sent -/

theorem eq_kept_of_bindColumns {sent : List (Column × Value)} {more : List (ParameterType × Value)}
    {cells : List Cell} (h : bindColumns sent more = .ok cells) :
    cells = sent.map fun p => p.1.kept p.2 := by
  have hzip (bound : List Cell) :
      (sent.zip (sent.map (fun p => Clause.boundCell (p.1.kind.parameterType, p.2)) ++ bound)).map
        (fun p => p.1.1.kind.affinity.stored p.2) = sent.map fun p => p.1.kept p.2 := by
    clear h
    induction sent with
    | nil => rfl
    | cons p rest ih => simpa [Column.kept] using ih
  obtain ⟨prepared, hprepared, h⟩ := bind_eq_ok_iff.1 h
  split at h
  · cases h
  · next bound hbound =>
    rw [← hzip (more.map Clause.boundCell), ← Except.ok.inj h,
      Select.eq_boundCell_of_bindAll hprepared hbound, List.map_append, List.map_map]
    rfl

theorem written_of_bindColumns {sent : List (Column × Value)}
    {more : List (ParameterType × Value)} {cells : List Cell}
    (h : bindColumns sent more = .ok cells) :
    (sent.map fun p => p.1.name).zip cells = sent.map fun p => (p.1.name, p.1.kept p.2) := by
  rw [eq_kept_of_bindColumns h, List.zip_map']

/-- Where the columns have names of their own, a column is written what was sent for it. -/
theorem get?_sent {columns : List Column} (hnames : (columns.map Column.name).Nodup)
    {send? : Column → Option (Column × Value)} (hsend : ∀ d p, send? d = some p → p.1 = d)
    (hc : c ∈ columns) :
    Entries.get? ((columns.filterMap send?).map fun p => (p.1.name, p.1.kept p.2)) c.name =
      (send? c).map fun p => c.kept p.2 := by
  induction columns with
  | nil => cases hc
  | cons d rest ih =>
    obtain ⟨hd, hrest⟩ := List.nodup_cons.1 hnames
    rcases List.mem_cons.1 hc with rfl | hmem
    · cases hsent : send? c with
      | some p =>
        rw [List.filterMap_cons_some hsent, List.map_cons, Entries.get?_cons, hsend c p hsent,
          if_pos rfl, Option.map_some]
      | none =>
        -- No later column has the name, so that nothing is sent under it.
        rw [List.filterMap_cons_none hsent, Option.map_none, Entries.get?_eq_none_iff]
        intro hkey
        simp only [Entries.keys, List.map_map, List.mem_map, Function.comp_apply] at hkey
        obtain ⟨p, hp, hname⟩ := hkey
        obtain ⟨e, he, hep⟩ := List.mem_filterMap.1 hp
        rw [hsend e p hep] at hname
        exact hd (hname ▸ List.mem_map_of_mem he)
    · have hne : d.name ≠ c.name := fun heq => hd (heq ▸ List.mem_map_of_mem hmem)
      cases hsent : send? d with
      | none => rw [List.filterMap_cons_none hsent, ih hrest hmem]
      | some p =>
        rw [List.filterMap_cons_some hsent, List.map_cons, Entries.get?_cons, hsend d p hsent,
          if_neg hne, ih hrest hmem]

/-! ### New rows -/

/-- What is sent for a column is its default, the value that was set, or null; for a key null is
sent only as a value of JSON. -/
theorem sent?_cases {supply : Supply} {r : Record} {v : Value} (h : r.sent? supply c = some v) :
    (∃ d, c.default? = some d ∧ v = supply.value d) ∨
      v ≠ .null ∧ Entries.get? r c.field = some v ∨
        v = .null ∧ (c.kind = .json ∨ c.primaryKey = false) := by
  have hdefault (hdrawn : c.default?.map supply.value = some v) :
      ∃ d, c.default? = some d ∧ v = supply.value d := by
    obtain ⟨d, hd, hv⟩ := Option.map_eq_some_iff.1 hdrawn
    exact ⟨d, hd, hv.symm⟩
  unfold Record.sent? at h
  split at h
  · split at h
    · next hjson => exact Or.inr (Or.inr ⟨(Option.some.inj h).symm, Or.inl hjson⟩)
    · split at h
      · exact Or.inl (hdefault h)
      · split at h
        · cases h
        · next hkey =>
          exact Or.inr (Or.inr ⟨(Option.some.inj h).symm, Or.inr (by simp_all)⟩)
  · next w hnull hget =>
    cases h
    exact Or.inr (Or.inl ⟨hnull, hget⟩)
  · split at h
    · exact Or.inl (hdefault h)
    · split at h
      · cases h
      · exact Or.inr (Or.inr ⟨(Option.some.inj h).symm, Or.inr (by simp_all)⟩)

/-- A value that was set is sent as it is. -/
theorem sent?_of_get? {supply : Supply} {r : Record} {v : Value}
    (h : Entries.get? r c.field = some v) (hv : v ≠ .null) : r.sent? supply c = some v := by
  unfold Record.sent?
  rw [h]
  cases v with
  | null => exact absurd rfl hv
  | _ => rfl

def sentCells (supply : Supply) (m : Model) (r : Record) : Entries Cell :=
  (m.columns.filterMap fun c => (r.sent? supply c).map (c, ·)).map fun p =>
    (p.1.name, p.1.kept p.2)

theorem get?_sentCells (hnames : (m.columns.map Column.name).Nodup) (supply : Supply) (r : Record)
    (hc : c ∈ m.columns) :
    Entries.get? (sentCells supply m r) c.name = (r.sent? supply c).map c.kept := by
  rw [sentCells, get?_sent hnames (by simp) hc, Option.map_map]
  rfl

/-- What there is to know of a row that was added: its number, its cells, and that it breaks no
rule. -/
theorem of_insert {supply : Supply} {r : Record} {row : Row}
    (h : s.insert supply m r = .ok (s', row)) :
    s.newNumber m (sentCells supply m r) = .ok row.number ∧
      row.cells = m.columns.map (fun c =>
        (c.name, newCell m row.number (sentCells supply m r) c)) ∧
        s.violation? m (s.rows m) row = none := by
  simp only [insert, bind_eq_ok_iff] at h
  obtain ⟨cells, hcells, number, hnumber, h⟩ := h
  rw [written_of_bindColumns hcells, ← sentCells] at hnumber h
  split at h
  · cases h
  · next hok =>
    obtain ⟨-, rfl⟩ := Prod.mk.inj (Except.ok.inj h)
    exact ⟨hnumber, rfl, hok⟩

/-- Where the columns have names of their own, the name of the column that numbers the rows tells
it. -/
theorem rowNumber?_of_name (hnames : (m.columns.map Column.name).Nodup) (hc : c ∈ m.columns)
    (h : m.rowNumber?.map Column.name = some c.name) : m.rowNumber? = some c := by
  obtain ⟨d, hd, hname⟩ := Option.map_eq_some_iff.1 h
  rw [hd, List.inj_on_of_nodup_map hnames (Model.mem_columns_of_rowNumber? hd) hc hname]

/-- The cell of a column in a new row: its number, what was sent, or the default of the store. -/
theorem cell_of_insert {supply : Supply} {r : Record} {row : Row}
    (hnames : (m.columns.map Column.name).Nodup) (h : s.insert supply m r = .ok (s', row))
    (hc : c ∈ m.columns) :
    row.cell c.name = if m.rowNumber?.map Column.name = some c.name then .integer row.number
      else ((r.sent? supply c).map c.kept).getD c.storeDefault := by
  obtain ⟨number, cells⟩ := row
  obtain ⟨-, hcells, -⟩ := of_insert h
  obtain ⟨d, hd, hname, hcell⟩ := cell_newRow number (sentCells supply m r) hc
  obtain rfl : d = c := List.inj_on_of_nodup_map hnames hd hc hname
  rw [show cells = _ from hcells, hcell, newCell, get?_sentCells hnames supply r hc]
  cases (r.sent? supply d).map d.kept <;> rfl

/-- The number of a new row is the one that was sent for its key, or the next one of its table. -/
theorem number_of_insert {supply : Supply} {r : Record} {row : Row}
    (hnames : (m.columns.map Column.name).Nodup) (h : s.insert supply m r = .ok (s', row))
    (hc : m.rowNumber? = some c) :
    ((r.sent? supply c).map c.kept).getD .null = .integer row.number ∨
      ((r.sent? supply c).map c.kept).getD .null = .null ∧
        row.number = nextNumber (s.rows m) ∧ Number.fitsStore row.number = true := by
  have hnext {next n : Int} (hn : (if Number.fitsStore next = true then Except.ok next
      else Except.error StoreError.full) = .ok n) : n = next ∧ Number.fitsStore n = true := by
    split at hn
    · next hfits =>
      cases hn
      exact ⟨rfl, hfits⟩
    · cases hn
  obtain ⟨hnumber, -⟩ := of_insert h
  rw [newNumber, hc, Option.bind_some,
    get?_sentCells hnames supply r (Model.mem_columns_of_rowNumber? hc)] at hnumber
  split at hnumber
  · next hsent =>
    rw [hsent, ← Except.ok.inj hnumber]
    exact .inl rfl
  · next hsent => exact .inr ⟨by rw [hsent]; rfl, hnext hnumber⟩
  · next hsent => exact .inr ⟨by rw [hsent]; rfl, hnext hnumber⟩
  · cases hnumber

/-- What a new row has in a column that was given no value: the column's own default, a new number
where the column numbers the rows, what the store puts there, or null. -/
def defaultCell (supply : Supply) (m : Model) (rows : List Row) (c : Column) : Cell :=
  let own := c.default?.map fun d => c.kept (supply.value d)
  if m.rowNumber?.map Column.name = some c.name then
    if own.getD .null = .null then .integer (nextNumber rows) else own.getD .null
  else own.getD c.storeDefault

/-- A column without a value that it draws by itself is sent nothing or null, and the store puts in
what it has. -/
theorem kept_sent_of_unset (supply : Supply) {r : Record}
    (hunset : Entries.get? r c.field = none) :
    ((r.sent? supply c).map c.kept).getD .null =
        (c.default?.map fun d => c.kept (supply.value d)).getD .null ∧
      ((r.sent? supply c).map c.kept).getD c.storeDefault =
        (c.default?.map fun d => c.kept (supply.value d)).getD c.storeDefault := by
  unfold Record.sent?
  rw [hunset]
  cases hd : c.default? with
  | some d => simp
  | none =>
    by_cases hleft : c.primaryKey ∨ c.serverDefault?.isSome ∨ c.kind = .json
    · simp [hleft]
    · obtain ⟨-, hserver, hjson⟩ : c.primaryKey = false ∧ c.serverDefault? = none ∧
          c.kind ≠ .json := by simpa using hleft
      simp only [Option.isSome_none, Bool.false_eq_true, if_false, if_neg hleft]
      simp [Column.kept_null hjson, Column.storeDefault, hserver]

theorem cell_of_insert_unset {supply : Supply} {r : Record} {row : Row}
    (hnames : (m.columns.map Column.name).Nodup) (h : s.insert supply m r = .ok (s', row))
    (hc : c ∈ m.columns) (hunset : Entries.get? r c.field = none) :
    row.cell c.name = defaultCell supply m (s.rows m) c := by
  obtain ⟨hnull, hstore⟩ := kept_sent_of_unset supply hunset
  rw [cell_of_insert hnames h hc, defaultCell, hstore, ← hnull]
  by_cases hname : m.rowNumber?.map Column.name = some c.name
  · rw [if_pos hname, if_pos hname]
    have hkey := rowNumber?_of_name hnames hc hname
    rcases number_of_insert hnames h hkey with hsent | ⟨hsent, hnumber, -⟩
    · rw [hsent, if_neg Cell.noConfusion]
    · rw [hsent, if_pos rfl, hnumber]
  · rw [if_neg hname, if_neg hname]

/-! ### Changed rows -/

def changedCells (now : Calendar.Moment) (m : Model) (before after : Record) : Entries Cell :=
  (changes now m before after).map fun p => (p.1.name, p.1.kept p.2)

@[simp] theorem differs_self (v : Value) : differs v v = false := by simp [differs]

@[simp] theorem changes_self (now : Calendar.Moment) (m : Model) (known : Record) :
    changes now m known known = [] := by
  simp [changes, changedColumns]

/-- A change that leaves the record as it is writes nothing. -/
@[simp] theorem update_self (s : Store) (now : Calendar.Moment) (m : Model) (row : Row)
    (known : Record) : s.update now m row known known = .ok (s, row) := by
  simp [update, pure, Except.pure]

theorem contains_changedFields {before after : Record} (hc : c ∈ m.columns) :
    ((changedColumns m before after).map Column.field).contains c.field =
      differs (before.value c.field) (after.value c.field) := by
  rw [Bool.eq_iff_iff, List.contains_iff_mem, List.mem_map]
  constructor
  · rintro ⟨d, hd, hfield⟩
    simpa [hfield] using (List.mem_filter.1 hd).2
  · intro h
    exact ⟨c, List.mem_filter.2 ⟨hc, h⟩, rfl⟩

/-- What a change sends for a column: its new value where that is another one, or the time. -/
theorem mem_changes_iff {now : Calendar.Moment} {before after : Record} {p : Column × Value} :
    p ∈ changes now m before after ↔ changedColumns m before after ≠ [] ∧ p.1 ∈ m.columns ∧
      (differs (before.value p.1.field) (after.value p.1.field) = true ∧
          p.2 = after.value p.1.field ∨
        differs (before.value p.1.field) (after.value p.1.field) = false ∧
          p.1.stampedOnUpdate = true ∧ p.2 = .moment now) := by
  obtain ⟨c, v⟩ := p
  unfold changes
  simp only [List.isEmpty_iff, List.map_eq_nil_iff]
  by_cases hchanged : changedColumns m before after = []
  · simp [hchanged]
  · rw [if_neg hchanged, List.mem_filterMap, and_iff_right hchanged]
    constructor
    · rintro ⟨d, hd, h⟩
      rw [contains_changedFields hd] at h
      split at h
      · next hdiffers =>
        cases h
        exact ⟨hd, .inl ⟨hdiffers, rfl⟩⟩
      · next hsame =>
        split at h
        · next hstamped =>
          cases h
          exact ⟨hd, .inr ⟨by simpa using hsame, hstamped, rfl⟩⟩
        · cases h
    · rintro ⟨hc, ⟨hdiffers, rfl⟩ | ⟨hsame, hstamped, rfl⟩⟩ <;>
        refine ⟨c, hc, ?_⟩ <;> rw [contains_changedFields hc]
      · rw [if_pos hdiffers]
      · rw [hsame, if_neg Bool.false_ne_true, if_pos hstamped]

theorem mem_changes_of_differs {now : Calendar.Moment} {before after : Record} (hc : c ∈ m.columns)
    (hdiffers : differs (before.value c.field) (after.value c.field) = true) :
    (c, after.value c.field) ∈ changes now m before after :=
  mem_changes_iff.2
    ⟨List.ne_nil_of_mem (List.mem_filter.2 ⟨hc, hdiffers⟩), hc, .inl ⟨hdiffers, rfl⟩⟩

theorem of_mem_changes {now : Calendar.Moment} {before after : Record} {p : Column × Value}
    (h : p ∈ changes now m before after) : p.1 ∈ m.columns ∧
      (p.2 = after.value p.1.field ∨ p.1.stampedOnUpdate = true ∧ p.2 = .moment now) := by
  obtain ⟨-, hc, hvalue⟩ := mem_changes_iff.1 h
  exact ⟨hc, hvalue.imp And.right And.right⟩

/-- A change writes the columns whose values differ and, beside them, those that keep the time of
changes. -/
theorem get?_changedCells (hnames : (m.columns.map Column.name).Nodup) (now : Calendar.Moment)
    (before after : Record) (hc : c ∈ m.columns) :
    Entries.get? (changedCells now m before after) c.name =
      if changedColumns m before after = [] then none
      else if differs (before.value c.field) (after.value c.field) then
        some (c.kept (after.value c.field))
      else if c.stampedOnUpdate then some (c.kept (.moment now)) else none := by
  unfold changedCells changes
  by_cases hchanged : changedColumns m before after = []
  · simp [hchanged]
  · have hsome : ((changedColumns m before after).map Column.field).isEmpty = false := by
      simpa using hchanged
    simp only [hsome, Bool.false_eq_true, if_false, if_neg hchanged]
    rw [get?_sent hnames ?_ hc, contains_changedFields hc]
    · split
      · rfl
      · split <;> rfl
    · intro d p hp
      split at hp
      · rw [← Option.some.inj hp]
      · split at hp
        · rw [← Option.some.inj hp]
        · cases hp

theorem cell_of_notMem {row : Row} {name : String} (h : name ∉ Entries.keys row.cells) :
    row.cell name = .null := by
  rw [Row.cell, Entries.get?_eq_none_iff.2 h, Option.getD_none]

theorem mem_keys_of_cell {row : Row} {name : String} (h : (row.cell name).isNull = false) :
    name ∈ Entries.keys row.cells := by
  by_contra hmissing
  rw [cell_of_notMem hmissing] at h
  cases h

theorem cell_withCells {row : Row} {written : Entries Cell} {name : String}
    (hname : name ∈ Entries.keys row.cells) :
    (withCells row written).cell name = (written.get? name).getD (row.cell name) := by
  obtain ⟨number, cells⟩ := row
  unfold withCells Row.cell
  induction cells with
  | nil => cases hname
  | cons entry rest ih =>
    obtain ⟨key, cell⟩ := entry
    rw [List.map_cons, Entries.get?_cons, Entries.get?_cons]
    by_cases hkey : key = name
    · simp [hkey]
    · rw [if_neg hkey, if_neg hkey]
      exact ih ((List.mem_cons.1 hname).resolve_left (Ne.symm hkey))

theorem keys_withCells (row : Row) (written : Entries Cell) :
    Entries.keys (withCells row written).cells = Entries.keys row.cells := by
  simp [withCells, Entries.keys, Function.comp_def]

theorem cell_withCells_of_get?_eq_none {row : Row} {written : Entries Cell} {name : String}
    (h : written.get? name = none) : (withCells row written).cell name = row.cell name := by
  by_cases hname : name ∈ Entries.keys row.cells
  · rw [cell_withCells hname, h, Option.getD_none]
  · have hwritten : name ∉ Entries.keys (withCells row written).cells := by rwa [keys_withCells]
    rw [cell_of_notMem hname, cell_of_notMem hwritten]

@[simp] theorem withCells_nil (row : Row) : withCells row [] = row := by
  simp [withCells]

theorem cells_renumbered {row next : Row} (h : renumbered m row = .ok next) :
    next.cells = row.cells := by
  unfold renumbered at h
  split at h
  · cases h
    rfl
  · split at h
    · cases h
      rfl
    · cases h

/-- A changed row has the cells that were written and keeps all others. -/
theorem cells_of_update {now : Calendar.Moment} {row next : Row} {before after : Record}
    (h : s.update now m row before after = .ok (s', next)) :
    next.cells = (withCells row (changedCells now m before after)).cells := by
  rcases of_update h with ⟨hnothing, -, rfl⟩ | ⟨cells, hcells, -, hnext, -, -⟩
  · rw [changedCells, hnothing, List.map_nil, withCells_nil]
  · rw [written_of_bindColumns hcells, ← changedCells] at hnext
    exact cells_renumbered hnext

theorem cell_of_update {now : Calendar.Moment} {row next : Row} {before after : Record}
    (h : s.update now m row before after = .ok (s', next)) (name : String) :
    next.cell name = (withCells row (changedCells now m before after)).cell name := by
  rw [Row.cell, cells_of_update h, ← Row.cell]

/-- A change keeps a cell, writes the value that the record has now, or writes the time. -/
theorem cell_of_update_cases {now : Calendar.Moment} {row next : Row} {before after : Record}
    (hnames : (m.columns.map Column.name).Nodup)
    (h : s.update now m row before after = .ok (s', next)) (hc : c ∈ m.columns) :
    next.cell c.name = row.cell c.name ∨
      differs (before.value c.field) (after.value c.field) = true ∧
        next.cell c.name = c.kept (after.value c.field) ∨
      c.stampedOnUpdate = true ∧ next.cell c.name = c.kept (.moment now) := by
  rw [cell_of_update h]
  by_cases hname : c.name ∈ Entries.keys row.cells
  · rw [cell_withCells hname, get?_changedCells hnames now before after hc]
    split
    · exact Or.inl rfl
    · split
      · next hdiffers => exact Or.inr (Or.inl ⟨hdiffers, rfl⟩)
      · split
        · next hstamped => exact Or.inr (Or.inr ⟨hstamped, rfl⟩)
        · exact Or.inl rfl
  · have hwritten : c.name ∉ Entries.keys
        (withCells row (changedCells now m before after)).cells := by rwa [keys_withCells]
    rw [cell_of_notMem hname, cell_of_notMem hwritten]
    exact Or.inl rfl

/-- A change keeps the cell of a column whose value it leaves alone. -/
theorem cell_of_update_same {now : Calendar.Moment} {row next : Row} {before after : Record}
    (hnames : (m.columns.map Column.name).Nodup)
    (h : s.update now m row before after = .ok (s', next)) (hc : c ∈ m.columns)
    (hsame : after.value c.field = before.value c.field) (hstamped : c.stampedOnUpdate = false) :
    next.cell c.name = row.cell c.name := by
  rw [cell_of_update h]
  apply cell_withCells_of_get?_eq_none
  simp [get?_changedCells hnames now before after hc, hsame, hstamped]

/-- A change writes what it sends. -/
theorem cell_of_update_of_mem {now : Calendar.Moment} {row next : Row} {before after : Record}
    {v : Value} (hnames : (m.columns.map Column.name).Nodup)
    (h : s.update now m row before after = .ok (s', next))
    (hrow : c.name ∈ Entries.keys row.cells) (hsent : (c, v) ∈ changes now m before after) :
    next.cell c.name = c.kept v := by
  obtain ⟨hchanged, hc, hvalue⟩ := mem_changes_iff.1 hsent
  rw [cell_of_update h, cell_withCells hrow, get?_changedCells hnames now before after hc,
    if_neg hchanged]
  rcases hvalue with ⟨hdiffers, hv⟩ | ⟨hsame, hstamped, hv⟩
  · rw [if_pos hdiffers, ← hv, Option.getD_some]
  · rw [hsame, if_neg Bool.false_ne_true, if_pos hstamped, ← hv, Option.getD_some]

/-- A change of a text column writes the new text, also where it is the old one. -/
theorem cell_of_update_text {now : Calendar.Moment} {row next : Row} {before after : Record}
    (hnames : (m.columns.map Column.name).Nodup)
    (h : s.update now m row before after = .ok (s', next)) (hc : c ∈ m.columns)
    (hkind : c.kind = .text) (hstamped : c.stampedOnUpdate = false)
    (hrow : c.name ∈ Entries.keys row.cells) {old new : String} (hcell : row.cell c.name = .text old)
    (hbefore : before.value c.field = .text old) (hafter : after.value c.field = .text new) :
    next.cell c.name = .text new := by
  by_cases hsame : new = old
  · rw [cell_of_update_same hnames h hc (by rw [hafter, hbefore, hsame]) hstamped, hcell, hsame]
  · have hdiffers : differs (before.value c.field) (after.value c.field) = true := by
      simp [hafter, hbefore, differs, Value.identical, Value.same, hsame]
    rw [cell_of_update_of_mem hnames h hrow (mem_changes_of_differs hc hdiffers), hafter,
      Column.kept, hkind]
    rfl

end Store

end TableApi
