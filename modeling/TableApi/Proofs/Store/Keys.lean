import Mathlib.Data.List.Induction
import TableApi.Proofs.Store.Cells
import TableApi.Resource.Service

/-! The keys of records that were written. The store takes no row whose key is null, so behind a
flush the key of a record is known: as it was set, as it was drawn, or as the store made it. -/

namespace TableApi

/-- Only a null cell and null in JSON are loaded as null. -/
theorem Cell.load_ne_null {kind : ColumnKind} {cell : Cell} (hcell : cell.isNull = false)
    (hkind : kind ≠ .json) : cell.load kind ≠ .null := by
  have hvalue : cell.toValue ≠ .null := by
    cases cell with
    | null => cases hcell
    | _ => exact Value.noConfusion
  cases kind with
  | json => exact absurd rfl hkind
  | integer | float | text | raw => exact hvalue
  | numeric | boolean => cases cell <;> first | exact hvalue | exact Value.noConfusion
  | date =>
    cases cell with
    | text s => cases h : Calendar.readDate? s <;> simp [load, loadDate, h]
    | _ => exact hvalue
  | moment =>
    cases cell with
    | text s => cases h : Calendar.readMoment? s <;> simp [load, loadMoment, h]
    | _ => exact hvalue
  | uuid =>
    cases cell with
    | text s => cases h : Uuid.read? s <;> simp [load, loadUuid, h]
    | _ => exact hvalue

namespace Store

variable {s s' : Store} {m : Model} {c : Column} {field : String} {row next : Row}
  {now : Calendar.Moment} {before after : Record}

theorem differs_null {v : Value} (h : v ≠ .null) : differs v .null = true := by
  cases v with
  | null => exact absurd rfl h
  | _ => simp [differs, Value.identical, Value.same, Value.sameNumber, Value.number?]

/-! ### New records -/

theorem value_inserted (hc : m.column? field = some c) (supply : Supply) (r : Record) (row : Row) :
    Record.value (inserted supply m r row) field =
      match r.sent? supply c with
      | some v => v
      | none => (row.cell c.name).load c.kind := by
  have hget : Entries.get? (inserted supply m r row) field = _ :=
    Entries.get?_map Column.field _ m.columns field
  rw [Record.value, hget, ← Model.column?, hc]
  rfl

/-- Null is never sent for a key. -/
theorem sent?_ne_null (hc : c.IsKey) {supply : Supply} {r : Record} {v : Value}
    (h : r.sent? supply c = some v) : v ≠ .null := by
  rcases sent?_cases h with ⟨d, hd, rfl⟩ | ⟨hset, -⟩ | ⟨-, hjson | hplain⟩
  · cases d with
    | value v =>
      rintro rfl
      have hkept : (c.kept .null).isNull = false := hc.default _ hd supply
      rw [Column.kept_null hc.kind] at hkept
      cases hkept
    | now | nextUuid => exact Value.noConfusion
  · exact hset
  · exact absurd hjson hc.kind
  · rw [hc.key] at hplain
    cases hplain

/-- Behind its flush the key of a new record is known. -/
theorem key_of_insert {supply : Supply} {r : Record} (h : s.insert supply m r = .ok (s', row))
    (hc : m.column? field = some c) (hkey : c.IsKey) :
    Record.value (inserted supply m r row) field ≠ .null := by
  obtain ⟨-, -, hrules⟩ := of_insert h
  rw [value_inserted hc]
  cases hsent : r.sent? supply c with
  | some v => exact sent?_ne_null hkey hsent
  | none =>
    have hmem : c ∈ m.columns := List.mem_of_find?_eq_some hc
    exact Cell.load_ne_null ((violation?_eq_none_iff.1 hrules).1 c hmem hkey.required) hkey.kind

/-! ### Changed records -/

theorem rules_of_update (h : s.update now m row before after = .ok (s', next)) :
    next = row ∨ s.violation? m (s.otherRows m row) next = none := by
  rcases of_update h with ⟨-, -, rfl⟩ | ⟨cells, -, -, -, hrules, -⟩
  · exact .inl rfl
  · exact .inr hrules

/-- A change leaves no part of a key null. -/
theorem filled_of_update (h : s.update now m row before after = .ok (s', next))
    (hc : c ∈ m.columns) (hkey : c.IsKey) (hcell : (row.cell c.name).isNull = false) :
    (next.cell c.name).isNull = false := by
  rcases rules_of_update h with rfl | hrules
  · exact hcell
  · exact (violation?_eq_none_iff.1 hrules).1 c hc hkey.required

/-- A change that takes the key from a row is refused. -/
theorem key_of_update (hm : m.Keyed) (h : s.update now m row before after = .ok (s', next))
    (hc : c ∈ m.columns) (hkey : c.IsKey) (hcell : (row.cell c.name).isNull = false)
    (hbefore : before.value c.field ≠ .null) : after.value c.field ≠ .null := by
  intro hnull
  have hdiffers : differs (before.value c.field) (after.value c.field) = true := by
    rw [hnull]
    exact differs_null hbefore
  have hnext : next.cell c.name = .null := by
    rw [cell_of_update_of_mem hm.names h (mem_keys_of_cell hcell) (mem_changes_of_differs hc hdiffers),
      hnull, Column.kept_null hkey.kind]
  have hfilled := filled_of_update h hc hkey hcell
  rw [hnext] at hfilled
  cases hfilled

/-- The row that is found by a key has one. -/
theorem key_of_find? {key : Value} (h : s.find? m key = .ok (some row)) (hc : c ∈ m.primaryKey) :
    (row.cell c.name).isNull = false := by
  unfold find? at h
  split at h
  · cases h
  · next d hd =>
    obtain ⟨prepared, hprepared, h⟩ := bind_eq_ok_iff.1 h
    split at h
    · cases h
    · next cells hcells =>
      have hall := List.find?_some (Except.ok.inj h)
      obtain rfl : c = d := by
        rw [Model.primaryKey_of_soleKey? hd] at hc
        exact List.mem_singleton.1 hc
      rw [Select.eq_boundCell_of_bindAll hprepared hcells] at hall
      have hequal := List.all_eq_true.1 hall _ (List.mem_singleton.2 rfl)
      rw [Affinity.compares, Bool.and_eq_true, Bool.and_eq_true] at hequal
      simpa using hequal.1.1

end Store

namespace Resource

variable {m : Model} {field : String} {record : Record}

/-- The row at an address has a key. -/
theorem key_of_find {r : Resource} {store : Store} {address : Value} {row : Row} {c : Column}
    (h : r.find store address = .ok row) (hc : c ∈ r.model.primaryKey) :
    (row.cell c.name).isNull = false := by
  obtain ⟨key, -, h⟩ := bind_eq_ok_iff.1 h
  obtain ⟨found?, hfind, h⟩ := bind_eq_ok_iff.1 h
  cases found? with
  | none => cases h
  | some found =>
    cases h
    exact Store.key_of_find? (mapError_eq_ok_iff.1 hfind) hc

/-- What is known of a field behind a change: what was written to it, or what the record has in it
where nothing was. -/
theorem value_stamped (hfield : field ∈ m.fields) (written : List (Column × Value))
    (record : Record) :
    (∀ p ∈ written, p.1.field ≠ field) ∧
        (stamped m written record).value field = record.value field ∨
      ∃ p ∈ written, p.1.field = field ∧ (stamped m written record).value field = p.2 := by
  unfold stamped
  induction written using List.reverseRecOn with
  | nil =>
    obtain ⟨c, hc⟩ := Model.exists_column?_of_mem hfield
    have hget := Entries.get?_map Column.field (fun c => record.value c.field) m.columns field
    refine .inl ⟨fun _ hp => absurd hp List.not_mem_nil, ?_⟩
    rw [List.foldl_nil, Record.value, hget, ← Model.column?, hc, ← Model.field_of_column? hc]
    rfl
  | append_singleton written p ih =>
    rw [List.foldl_concat, Record.value, Entries.get?_put]
    by_cases hp : p.1.field = field
    · exact .inr ⟨p, by simp, hp, by rw [if_pos hp]; rfl⟩
    · rw [if_neg hp]
      rcases ih with ⟨hunwritten, hkept⟩ | ⟨q, hq, hsame, hvalue⟩
      · refine .inl ⟨fun q hq => ?_, hkept⟩
        rcases List.mem_append.1 hq with hearlier | hlast
        · exact hunwritten q hearlier
        · rwa [List.mem_singleton.1 hlast]
      · exact .inr ⟨q, List.mem_append_left _ hq, hsame, hvalue⟩

/-- Behind its flush the key of a changed record is known. -/
theorem key_of_stamped {s s' : Store} {now : Calendar.Moment} {row next : Row} {before : Record}
    {c : Column} (hm : m.Keyed) (h : s.update now m row before record = .ok (s', next))
    (hc : m.column? field = some c) (hkey : c.IsKey) (hcell : (row.cell c.name).isNull = false)
    (hbefore : before.value field ≠ .null) :
    (stamped m (Store.changes now m before record) record).value field ≠ .null := by
  obtain rfl := Model.field_of_column? hc
  have hmem : c ∈ m.columns := List.mem_of_find?_eq_some hc
  have hrecord : record.value c.field ≠ .null := Store.key_of_update hm h hmem hkey hcell hbefore
  rcases value_stamped (List.mem_map_of_mem hmem) (Store.changes now m before record) record with
    ⟨-, hkept⟩ | ⟨p, hp, hfield, hvalue⟩
  · rwa [hkept]
  · rw [hvalue]
    rcases (Store.of_mem_changes hp).2 with hafter | ⟨-, hstamp⟩
    · rwa [hafter, hfield]
    · rw [hstamp]
      exact Value.noConfusion

end Resource

end TableApi
