import TableApi.Proofs.Store.Failures
import TableApi.Proofs.Store.UniqueKeys

/-! Records that name their rows. Behind a flush the key of a record is what the store keeps for its
row, or what was loaded from it, and so the row is found by it. The one exception is a key that
numbers the rows and was set to what is no number: the store keeps null for that, and numbers the
row by itself. -/

namespace TableApi

variable {m : Model} {c : Column} {v : Value} {row next : Row}

theorem Cell.isNull_iff {cell : Cell} : cell.isNull = true ↔ cell = .null := by
  cases cell <;> simp [isNull]

theorem Column.names_load (c : Column) (cell : Cell) : c.names cell (cell.load c.kind) = true := by
  rw [names, Store.differs_self]
  rfl

theorem Column.names_kept (h : (c.kept v).isNull = false) : c.names (c.kept v) v = true := by
  rw [names, Store.sameCell_self h, Bool.or_true]

theorem Column.names_of_not_differs {cell : Cell} (h : Store.differs (cell.load c.kind) v = false) :
    c.names cell v = true := by
  rw [names, h]
  rfl

theorem isNamedBy_iff {r : Record} : row.isNamedBy m r = true ↔
    ∀ c ∈ m.primaryKey, c.names (row.cell c.name) (r.value c.field) = true :=
  List.all_eq_true

/-- The record of a row names it. -/
theorem isNamedBy_ofRow (hm : m.fields.Nodup) (row : Row) :
    row.isNamedBy m (Record.ofRow m row) = true := by
  refine isNamedBy_iff.2 fun c hc => ?_
  rw [Record.value_ofRow (Model.column?_of_mem hm (List.mem_filter.1 hc).1)]
  exact c.names_load _

/-- A number of the store is kept as it is. -/
theorem Column.kept_int (hkind : c.kind = .integer) {n : Int} (hfits : Number.fitsStore n = true) :
    c.kept (.int n) = .integer n := by
  have hbound : c.kind.parameterType.prepare (.int n) = .ok (.cell (.integer n)) := by
    rw [hkind]
    simp only [ColumnKind.parameterType, ParameterType.prepare, Prepared.ofValue, Prepared.ofInt,
      hfits, if_true]
  rw [kept, Clause.boundCell]
  simp only [hbound]
  rw [hkind]
  rfl

theorem Column.isNull_kept_of_accepts (hkind : c.kind = .integer)
    (haccepts : Coercion.accepts .integer v = true)
    (hbinds : Select.Binds (c.kind.parameterType, v)) : (c.kept v).isNull = false := by
  have htype : c.kind.parameterType = .asGiven := by rw [hkind]; rfl
  cases v with
  | int n =>
    rw [htype] at hbinds
    rw [Column.kept_int hkind ((Select.binds_of_integer rfl).1 hbinds)]
    rfl
  | bool b =>
    rw [kept, htype, hkind]
    cases b <;> rfl
  | _ => cases haccepts

namespace Store

variable {s s' : Store} {now : Calendar.Moment} {supply : Supply} {r before after : Record}

/-! ### New records -/

theorem binds_of_insert (h : s.insert supply m r = .ok (s', row)) (hc : c ∈ m.columns)
    (hsent : r.sent? supply c = some v) : Select.Binds (c.kind.parameterType, v) := by
  have hjudged : IsJudged (s.insert supply m r) := by
    rw [h]
    exact isJudged_ok _
  exact (isJudged_insert_iff.1 hjudged).1 c hc v hsent

/-- Behind its flush the key of a new record names its row, unless the key numbers the rows and was
set to something for which the store keeps null. -/
theorem names_inserted (hm : m.Keyed) (h : s.insert supply m r = .ok (s', row))
    (hc : c ∈ m.primaryKey) :
    c.names (row.cell c.name) ((inserted supply m r row).value c.field) = true ∨
      m.rowNumber? = some c ∧ c.kept ((inserted supply m r row).value c.field) = .null ∧
        Entries.get? r c.field = some ((inserted supply m r row).value c.field) := by
  have hmem := (List.mem_filter.1 hc).1
  have hkey := hm.keys c hc
  have hcell := cell_of_insert hm.names h hmem
  rw [value_inserted (Model.column?_of_mem hm.fields hmem)]
  cases hsent : r.sent? supply c with
  | none => exact .inl (c.names_load _)
  | some v =>
    rw [hsent] at hcell
    cases hnull : (c.kept v).isNull with
    | false =>
      have hkept : row.cell c.name = c.kept v := by
        rw [hcell]
        split
        · next hname =>
          rcases number_of_insert hm.names h (rowNumber?_of_name hm.names hmem hname) with
            hnumber | ⟨hnumber, -⟩
          · rw [hsent] at hnumber
            exact hnumber.symm
          · rw [hsent] at hnumber
            rw [show c.kept v = .null from hnumber] at hnull
            cases hnull
        · rfl
      rw [hkept]
      exact .inl (Column.names_kept hnull)
    | true =>
      have hkept : c.kept v = .null := Cell.isNull_iff.1 hnull
      refine .inr ⟨?_, hkept, ?_⟩
      · -- A key that does not number the rows would be null, against the rules.
        by_contra hnumber
        obtain ⟨-, -, hrules⟩ := of_insert h
        have hfilled := (violation?_eq_none_iff.1 hrules).1 c hmem hkey.required
        rw [hcell, if_neg fun hname => hnumber (rowNumber?_of_name hm.names hmem hname)] at hfilled
        rw [Option.map_some, Option.getD_some, hkept] at hfilled
        cases hfilled
      · rcases sent?_cases hsent with ⟨d, hd, rfl⟩ | ⟨-, hset⟩ | ⟨rfl, -⟩
        · rw [hkey.default d hd supply] at hnull
          cases hnull
        · exact hset
        · exact absurd rfl (sent?_ne_null hkey hsent)

/-- A new record whose key is unset, or a number where it numbers the rows, names its row. -/
theorem isNamedBy_inserted (hm : m.Keyed) (h : s.insert supply m r = .ok (s', row))
    (hset : ∀ c, m.rowNumber? = some c → ∀ v, Entries.get? r c.field = some v →
      v = .null ∨ Coercion.accepts .integer v = true) :
    row.isNamedBy m (inserted supply m r row) = true := by
  refine isNamedBy_iff.2 fun c hc => ?_
  have hmem := (List.mem_filter.1 hc).1
  refine (names_inserted hm h hc).resolve_right ?_
  rintro ⟨hnumber, hkept, hget⟩
  have hkind := (Model.soleKey?_of_rowNumber? hnumber).2
  have hvalue := key_of_insert h (Model.column?_of_mem hm.fields hmem) (hm.keys c hc)
  rcases hset c hnumber _ hget with hnull | haccepts
  · exact hvalue hnull
  · have hbinds := binds_of_insert h hmem (sent?_of_get? hget hvalue)
    have hfilled := Column.isNull_kept_of_accepts hkind haccepts hbinds
    rw [hkept] at hfilled
    cases hfilled

/-! ### Changed records -/

/-- Where nothing is changed the record names the rows that it named. -/
theorem isNamedBy_stamped_self (known : Record) (row : Row) :
    row.isNamedBy m (Resource.stamped m (changes now m known known) known) =
      row.isNamedBy m known := by
  have hvalue (c : Column) (hc : c ∈ m.primaryKey) :
      (Resource.stamped m (changes now m known known) known).value c.field =
        known.value c.field := by
    have hfield : c.field ∈ m.fields := List.mem_map_of_mem (List.mem_filter.1 hc).1
    rcases Resource.value_stamped hfield (changes now m known known) known with
      ⟨-, hkept⟩ | ⟨p, hp, -⟩
    · exact hkept
    · rw [changes_self] at hp
      cases hp
  rw [Bool.eq_iff_iff, isNamedBy_iff, isNamedBy_iff]
  exact forall₂_congr fun c hc => by rw [hvalue c hc]

/-- A row that was loaded is still named by its record behind a change of it. -/
theorem isNamedBy_stamped (hm : m.Keyed)
    (hrow : ∀ c ∈ m.primaryKey, (row.cell c.name).isNull = false)
    (h : s.update now m row (Record.ofRow m row) after = .ok (s', next)) :
    next.isNamedBy m
      (Resource.stamped m (changes now m (Record.ofRow m row) after) after) = true := by
  refine isNamedBy_iff.2 fun c hc => ?_
  have hmem := (List.mem_filter.1 hc).1
  rcases Resource.value_stamped (List.mem_map_of_mem hmem)
    (changes now m (Record.ofRow m row) after) after with
    ⟨hunsent, hvalue⟩ | ⟨p, hp, hfield, hvalue⟩
  · -- Nothing is sent for the key, so that it is still what it was loaded as.
    have hsame : differs ((Record.ofRow m row).value c.field) (after.value c.field) = false := by
      rw [Bool.eq_false_iff]
      intro hdiffers
      exact hunsent (c, after.value c.field) (mem_changes_of_differs hmem hdiffers) rfl
    have hkept : next.cell c.name = row.cell c.name := by
      rw [cell_of_update h]
      apply cell_withCells_of_get?_eq_none
      rw [Entries.get?_eq_none_iff]
      intro hkey
      obtain ⟨entry, hentry, hname⟩ := List.mem_map.1 hkey
      obtain ⟨p, hp, rfl⟩ := List.mem_map.1 hentry
      refine hunsent p hp (congrArg Column.field ?_)
      exact List.inj_on_of_nodup_map hm.names (of_mem_changes hp).1 hmem hname
    rw [Record.value_ofRow (Model.column?_of_mem hm.fields hmem)] at hsame
    rw [hvalue, hkept]
    exact Column.names_of_not_differs hsame
  · obtain ⟨d, v⟩ := p
    obtain rfl : d = c := List.inj_on_of_nodup_map hm.fields (of_mem_changes hp).1 hmem hfield
    have hkept := cell_of_update_of_mem hm.names h (mem_keys_of_cell (hrow d hc)) hp
    have hfilled := filled_of_update h hmem (hm.keys d hc) (hrow d hc)
    rw [hvalue, hkept]
    rw [hkept] at hfilled
    exact Column.names_kept hfilled

end Store

end TableApi
