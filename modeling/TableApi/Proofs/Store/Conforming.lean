import TableApi.Proofs.Coercion.Shown

/-! Rows whose cells all belong to their columns. A model is regular when the values that its
columns put in by themselves suit them. Writing a record that suits a regular model gives a row that
belongs to it, and the record of such a row suits the model again. -/

namespace TableApi

/-! ### Regular models -/

/-- What a column puts in by itself suits it: its default, that of the store and the time of
changes. -/
structure Column.Regular (c : Column) : Prop where
  default : ∀ d, c.default? = some d → ∀ supply : Supply, (supply.value d).Suits c.kind
  server : c.storeDefault.Belongs c.kind
  stamped : c.stampedOnUpdate = true → ∀ now, (Value.moment now).Suits c.kind

/-- A model with names and fields that differ from each other and with regular columns. -/
structure Model.Regular (m : Model) : Prop where
  names : (m.columns.map Column.name).Nodup
  fields : (m.columns.map Column.field).Nodup
  columns : ∀ c ∈ m.columns, c.Regular

/-- A column that puts in nothing by itself. -/
theorem Column.Regular.of_none {c : Column} (hdefault : c.default? = none)
    (hserver : c.serverDefault? = none) (hstamped : c.stampedOnUpdate = false) : c.Regular where
  default d hd := by
    rw [hdefault] at hd
    cases hd
  server := by
    rw [Column.storeDefault, hserver]
    exact Or.inl rfl
  stamped h := by
    rw [hstamped] at h
    cases h

/-- A column of moments that begins with the time and may keep the time of changes. -/
theorem Column.Regular.of_now {c : Column} (hkind : c.kind = .moment)
    (hdefault : c.default? = some .now) (hserver : c.serverDefault? = none) : c.Regular where
  default d hd supply := by
    obtain rfl := Option.some.inj (hdefault.symm.trans hd)
    rw [hkind]
    exact fun _ => Or.inr ⟨rfl, fun _ => Value.noConfusion⟩
  server := by
    rw [Column.storeDefault, hserver]
    exact Or.inl rfl
  stamped _ now := by
    rw [hkind]
    exact fun _ => Or.inr ⟨rfl, fun _ => Value.noConfusion⟩

/-- A record each of whose values suits the column of its field. -/
def Record.Suits (m : Model) (r : Record) : Prop :=
  ∀ c ∈ m.columns, ∀ v, (c.field, v) ∈ r → v.Suits c.kind

def Row.Belongs (m : Model) (row : Row) : Prop :=
  ∀ c ∈ m.columns, (row.cell c.name).Belongs c.kind

variable {m : Model} {c : Column}

theorem Model.Regular.eq_of_field (hm : m.Regular) {d : Column} (hd : d ∈ m.columns)
    (hc : c ∈ m.columns) (h : d.field = c.field) : d = c :=
  List.inj_on_of_nodup_map hm.fields hd hc h

/-! ### Records -/

namespace Record

variable {r : Record}

theorem Suits.value (h : r.Suits m) (hc : c ∈ m.columns) : (r.value c.field).Suits c.kind := by
  rw [Record.value]
  cases hget : Entries.get? r c.field with
  | none => exact Value.suits_null c.kind
  | some v => exact h c hc v (Entries.mem_of_get?_eq_some hget)

theorem Suits.put (h : r.Suits m) {field : String} {v : Value}
    (hv : ∀ c ∈ m.columns, c.field = field → v.Suits c.kind) :
    Suits m (Entries.put field v r) := by
  intro c hc w hw
  rcases Entries.of_mem_put hw with hnew | hold
  · obtain ⟨hfield, rfl⟩ := Prod.mk.inj hnew
    exact hv c hc hfield
  · exact h c hc w hold

theorem Suits.putAll (h : r.Suits m) {additions : Record} (hadditions : additions.Suits m) :
    Suits m (Entries.putAll r additions) := by
  induction additions generalizing r with
  | nil => exact h
  | cons entry rest ih =>
    obtain ⟨field, v⟩ := entry
    rw [Entries.putAll, List.foldl_cons]
    refine ih (h.put fun c hc hfield => ?_) fun c hc w hw =>
      hadditions c hc w (List.mem_cons_of_mem _ hw)
    exact hadditions c hc v (hfield ▸ List.mem_cons_self)

/-- A record with one value for every column, each of which suits its column. -/
theorem suits_map (hm : m.Regular) {f : Column → Value}
    (hf : ∀ c ∈ m.columns, (f c).Suits c.kind) : Suits m (m.columns.map fun c => (c.field, f c)) := by
  intro c hc v hv
  obtain ⟨d, hd, hentry⟩ := List.mem_map.1 hv
  obtain ⟨hfield, rfl⟩ := Prod.mk.inj hentry
  obtain rfl := hm.eq_of_field hd hc hfield
  exact hf d hd

theorem suits_ofRow (hm : m.Regular) {row : Row} (h : row.Belongs m) : Suits m (ofRow m row) :=
  suits_map hm fun c hc => suits_load (h c hc)

theorem Suits.sent (hm : m.Regular) (h : r.Suits m) (hc : c ∈ m.columns) {supply : Supply}
    {v : Value} (hsent : r.sent? supply c = some v) : v.Suits c.kind := by
  rcases Store.sent?_cases hsent with ⟨d, hd, rfl⟩ | ⟨-, hget⟩ | ⟨rfl, -⟩
  · exact (hm.columns c hc).default d hd supply
  · exact h c hc v (Entries.mem_of_get?_eq_some hget)
  · exact Value.suits_null c.kind

end Record

/-! ### Writes -/

namespace Store

variable {σ : Schema} {s s' : Store} {row next : Row} {r before after : Record} {supply : Supply}
  {now : Calendar.Moment}

/-- A new row of a record that suits the model belongs to the model. -/
theorem belongs_of_insert (hm : m.Regular) (hr : r.Suits m)
    (h : s.insert supply m r = .ok (s', row)) : row.Belongs m := by
  intro c hc
  have hkept : ∀ cell, (r.sent? supply c).map c.kept = some cell → cell.Belongs c.kind := by
    intro cell hcell
    obtain ⟨v, hv, rfl⟩ := Option.map_eq_some_iff.1 hcell
    exact belongs_kept (hr.sent hm hc hv)
  rw [cell_of_insert hm.names h hc]
  split
  · next hname =>
    have hnumber := rowNumber?_of_name hm.names hc hname
    rw [(Model.soleKey?_of_rowNumber? hnumber).2] at hkept ⊢
    rcases number_of_insert hm.names h hnumber with hsent | ⟨-, -, hfits⟩
    · cases hgiven : (r.sent? supply c).map c.kept with
      | none => rw [hgiven] at hsent; cases hsent
      | some cell =>
        rw [hgiven, Option.getD_some] at hsent
        exact hkept _ (hgiven.trans (congrArg some hsent))
    · exact Or.inr ⟨_, rfl, hfits⟩
  · cases hgiven : (r.sent? supply c).map c.kept with
    | none => exact (hm.columns c hc).server
    | some cell => exact hkept cell hgiven

/-- A change to a record that suits the model keeps a row that belongs to it so. -/
theorem belongs_of_update (hm : m.Regular) (hrow : row.Belongs m) (hafter : after.Suits m)
    (h : s.update now m row before after = .ok (s', next)) : next.Belongs m := by
  intro c hc
  rcases cell_of_update_cases hm.names h hc with hkept | ⟨-, hwritten⟩ | ⟨hstamped, htime⟩
  · rw [hkept]
    exact hrow c hc
  · rw [hwritten]
    exact belongs_kept (hafter.value hc)
  · rw [htime]
    exact belongs_kept ((hm.columns c hc).stamped hstamped now)

/-- The record as it is known after it was added suits the model. -/
theorem suits_inserted (hm : m.Regular) (hr : r.Suits m) (hrow : row.Belongs m) :
    (inserted supply m r row).Suits m := by
  refine Record.suits_map hm ?_
  intro c hc
  cases hsent : r.sent? supply c with
  | some v => exact hr.sent hm hc hsent
  | none => exact suits_load (hrow c hc)

/-- The values that a change writes suit their columns. -/
theorem suits_changes (hm : m.Regular) (hafter : after.Suits m) {d : Column} {v : Value}
    (h : (d, v) ∈ changes now m before after) : d ∈ m.columns ∧ v.Suits d.kind := by
  obtain ⟨hd, hafter' | ⟨hstamped, hnow⟩⟩ := of_mem_changes h
  · obtain rfl : v = after.value d.field := hafter'
    exact ⟨hd, hafter.value hd⟩
  · obtain rfl : v = .moment now := hnow
    exact ⟨hd, (hm.columns _ hd).stamped hstamped now⟩

/-! ### Stores -/

def Conforms (s : Store) : Prop := ∀ t ∈ s, ∀ row ∈ t.rows, row.Belongs t.model

theorem Conforms.rows (h : s.Conforms) (hs : s.Sound σ) (hm : m ∈ σ.models) :
    ∀ row ∈ s.rows m, row.Belongs m := Holds.rows (P := fun m row => row.Belongs m) h hs hm

end Store

end TableApi
