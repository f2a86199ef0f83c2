import TableApi.Proofs.Coercion.Shown
import TableApi.Proofs.Number.Double
import TableApi.Proofs.Store.Conforming
import TableApi.Proofs.Web.Handling

/-! Rows that can be shown. Strict JSON has no form for an infinity or for no number, so no answer
can show a cell that is loaded as one. Among the values that a column accepts only few are kept as
such a cell. A new row without them can be shown, and a row that can be shown stays so when they are
not written to it. -/

namespace TableApi

open Number

/-! ### Cells -/

/-- Whether the value of a cell in a column has a form in strict JSON. -/
def Cell.isShowable (kind : ColumnKind) (cell : Cell) : Bool :=
  Web.isCompliant (cell.load kind).plain

/-- Whether a column that accepts a value keeps it as a cell that cannot be shown: an infinity among
floats, a decimal beyond all floats, and in a column of JSON what is not compliant when it is read
back. No number at all is kept as null. -/
def Value.spoils (kind : ColumnKind) (v : Value) : Bool :=
  match kind, v with
  | .float, .float (.infinite _) => true
  | .numeric, .decimal d => (d.toDouble? matches some (.infinite _))
  | .json, v => !(Affinity.numeric.stored (Clause.boundCell (.json, v))).isShowable .json
  | _, _ => false

namespace Cell

@[simp] theorem isShowable_null (kind : ColumnKind) : Cell.null.isShowable kind = true := by
  cases kind <;> rfl

theorem isShowable_integer (n : Int) : (Cell.integer n).isShowable .integer = true := rfl

theorem isShowable_uuid_text (s : String) : (Cell.text s).isShowable .uuid = true := by
  rw [isShowable, load, loadUuid]
  cases Uuid.read? s <;> rfl

theorem isShowable_numberToText {kind : ColumnKind} (hkind : kind.affinity = .text) (cell : Cell) :
    cell.numberToText.isShowable kind = true := by
  cases kind <;> cases hkind
  · cases cell <;> rfl
  · cases cell with
    | null | blob => rfl
    | integer | real | text => exact isShowable_uuid_text _
  · cases cell <;> rfl

/-- A cell of the form of a kind with texts is shown as such a text, a truth value or an integer. -/
theorem isShowable_of_belongs {kind : ColumnKind} (hkind : kind.isSpelled = true) {cell : Cell}
    (h : cell.Belongs kind) : cell.isShowable kind = true := by
  rcases h with rfl | hform
  · exact isShowable_null kind
  · unfold isShowable
    cases kind with
    | integer =>
      obtain ⟨n, rfl, -⟩ := hform
      rfl
    | text =>
      obtain ⟨s, rfl⟩ := hform
      rfl
    | boolean =>
      obtain ⟨b, rfl⟩ := hform
      rw [load_boolean]
      rfl
    | date =>
      obtain ⟨d, rfl⟩ := hform
      rw [load_date]
      rfl
    | moment =>
      obtain ⟨m, rfl⟩ := hform
      rw [load_moment]
      rfl
    | uuid =>
      obtain ⟨u, rfl⟩ := hform
      rw [load_uuid]
      rfl
    | float | numeric | json | raw => cases hkind

theorem narrow_real (x : Double) : (Cell.real x).narrow = .real x ∨
    x.isFinite = true ∧ ∃ n, (Cell.real x).narrow = .integer n ∧ n.natAbs ≤ twoTo 63 := by
  cases x with
  | nan | infinite => exact Or.inl rfl
  | finite negative units =>
    cases hn : (Double.finite negative units).toInt? with
    | none => exact Or.inl (by simp only [narrow, hn])
    | some n =>
      by_cases hrange : minStored < n ∧ n < maxStored
      · have hbound : twoTo 63 = 9223372036854775808 := by decide
        refine Or.inr ⟨rfl, n, by simp only [narrow, hn, if_pos hrange], ?_⟩
        unfold minStored maxStored at hrange
        omega
      · exact Or.inl (by simp only [narrow, hn, if_neg hrange])

end Cell

/-! ### Numbers -/

section Numbers

variable {x : Double}

/-- A column of floats keeps an infinity, and shows every other number as a finite one. -/
theorem isShowable_stored_float (x : Double) :
    (Affinity.real.stored (if x.isNan then .null else .real x)).isShowable .float =
      !(x matches .infinite _) := by
  cases x with
  | nan | infinite => rfl
  | finite negative units =>
    change (Affinity.real.stored (.real (.finite negative units))).isShowable .float = true
    have hnumber : Affinity.toNumber (.real (.finite negative units)) =
        .real (.finite negative units) := rfl
    rw [Affinity.stored, hnumber]
    rcases Cell.narrow_real (.finite negative units) with hsame | ⟨-, n, hinteger, hbound⟩
    · rw [hsame]
      rfl
    · obtain ⟨y, hy, hfinite, -⟩ := Double.exists_ofInt? hbound
      rw [hinteger]
      simp only [hy, Option.getD_some]
      exact hfinite

theorem isShowable_cents (hx : x.isFinite = true) (hbounded : x.IsBounded) :
    Web.isCompliant (Value.decimal (.ofDoubleCents x)).plain = true := by
  obtain ⟨y, hy, hfinite⟩ := Double.exists_toDouble?_cents hx hbounded
  rw [Value.plain, hy]
  exact hfinite

theorem isShowable_stored_numeric (hbounded : x.IsBounded) :
    (Affinity.numeric.stored (if x.isNan then .null else .real x)).isShowable .numeric =
      !(x matches .infinite _) := by
  cases x with
  | nan | infinite => rfl
  | finite negative units =>
    change ((Cell.real (.finite negative units)).narrow).isShowable .numeric = true
    rcases Cell.narrow_real (.finite negative units) with hsame | ⟨-, n, hinteger, hbound⟩
    · rw [hsame]
      exact isShowable_cents rfl hbounded
    · obtain ⟨y, hy, hfinite, hfew⟩ := Double.exists_ofInt? hbound
      rw [hinteger, Cell.isShowable, Cell.load, Cell.loadNumeric, hy]
      exact isShowable_cents hfinite hfew

theorem isBounded_toDouble? {d : Decimal} (h : d.toDouble? = some x) : x.IsBounded := by
  cases d with
  | finite negative coefficient exponent =>
    cases h
    exact Double.isBounded_ofDecimal _ _ _
  | infinite => cases h; exact True.intro
  | nan _ signaling =>
    cases signaling <;> cases h
    exact True.intro

end Numbers

/-! ### What a column keeps -/

theorem boundCell_float (x : Double) :
    Clause.boundCell (.number, .float x) = if x.isNan then .null else .real x := rfl

theorem boundCell_decimal {d : Decimal} {x : Double} (h : d.toDouble? = some x) :
    Clause.boundCell (.number, .decimal d) = if x.isNan then .null else .real x := by
  cases d with
  | finite | infinite =>
    cases h
    rfl
  | nan _ signaling =>
    cases signaling <;> cases h
    rfl

theorem boundCell_signaling {d : Decimal} (h : d.toDouble? = none) :
    Clause.boundCell (.number, .decimal d) = .null := by
  cases d with
  | finite | infinite => cases h
  | nan _ signaling =>
    cases signaling <;> cases h
    rfl

/-- A column keeps a value that it accepts as a cell that can be shown, unless the value spoils
it. -/
theorem isShowable_kept {c : Column} {v : Value}
    (h : v = .null ∨ Coercion.accepts c.kind v = true) :
    (c.kept v).isShowable c.kind = !v.spoils c.kind := by
  cases hkind : c.kind with
  | text | uuid | raw =>
    rw [Column.kept, hkind]
    exact Cell.isShowable_numberToText rfl _
  | integer | boolean | date | moment =>
    have hbytes : ∀ bs, v ≠ .bytes bs := by
      rintro bs rfl
      rw [hkind] at h
      rcases h with hnull | haccepts
      · cases hnull
      · cases haccepts
    rw [← hkind]
    have hshown : (c.kept v).isShowable c.kind = true :=
      Cell.isShowable_of_belongs (by rw [hkind]; rfl)
        (belongs_kept fun _ => h.imp_right fun haccepts => ⟨haccepts, hbytes⟩)
    rw [hshown, hkind]
    rfl
  | float =>
    rw [hkind] at h
    rw [Column.kept, hkind]
    rcases h with rfl | haccepts
    · rfl
    · cases v <;> cases haccepts
      next x =>
      rw [ColumnKind.parameterType, boundCell_float, ColumnKind.affinity, isShowable_stored_float]
      cases x <;> rfl
  | numeric =>
    rw [hkind] at h
    rw [Column.kept, hkind]
    rcases h with rfl | haccepts
    · rfl
    · cases v <;> cases haccepts
      next d =>
      rw [ColumnKind.parameterType, ColumnKind.affinity, Value.spoils]
      cases hd : d.toDouble? with
      | none =>
        rw [boundCell_signaling hd]
        rfl
      | some x =>
        rw [boundCell_decimal hd, isShowable_stored_numeric (isBounded_toDouble? hd)]
        cases x <;> rfl
  | json =>
    rw [Column.kept, hkind, Value.spoils, Bool.not_not]
    rfl

-- An infinity spoils a column of JSON however deep it stands, since it is read back as it was written.
example : Value.spoils .json (.list [.float (.infinite false)]) = true := by decide +kernel

theorem Value.spoils_null (kind : ColumnKind) : Value.null.spoils kind = false := by
  cases kind <;> rfl

theorem isShowable_kept_null (c : Column) : (c.kept .null).isShowable c.kind = true := by
  rw [isShowable_kept (Or.inl rfl), Value.spoils_null]
  rfl

/-! ### Rows -/

def Row.IsShowable (m : Model) (row : Row) : Prop :=
  ∀ c ∈ m.columns, (row.cell c.name).isShowable c.kind = true

/-- A record whose values are all kept as cells that can be shown. -/
def Record.IsShowable (m : Model) (r : Record) : Prop :=
  ∀ c ∈ m.columns, (c.kept (r.value c.field)).isShowable c.kind = true

/-- A model with names and fields that differ from each other, whose columns put in by themselves
only what can be shown: their defaults, those of the store and the times of changes. -/
structure Model.IsShowable (m : Model) : Prop where
  names : (m.columns.map Column.name).Nodup
  fields : (m.columns.map Column.field).Nodup
  default : ∀ c ∈ m.columns, ∀ d, c.default? = some d →
    ∀ supply : Supply, (c.kept (supply.value d)).isShowable c.kind = true
  server : ∀ c ∈ m.columns, c.storeDefault.isShowable c.kind = true
  stamped : ∀ c ∈ m.columns, c.stampedOnUpdate = true →
    ∀ now, (c.kept (.moment now)).isShowable c.kind = true

variable {m : Model} {c : Column} {r before after : Record} {supply : Supply}

/-- A model whose columns put in nothing by themselves. -/
theorem Model.isShowable_of_none (hnames : (m.columns.map Column.name).Nodup)
    (hfields : (m.columns.map Column.field).Nodup)
    (hnone : ∀ c ∈ m.columns, c.default?.isNone ∧ c.serverDefault?.isNone ∧
      c.stampedOnUpdate = false) : m.IsShowable where
  names := hnames
  fields := hfields
  default c hc d hd := by
    rw [Option.isNone_iff_eq_none.1 (hnone c hc).1] at hd
    cases hd
  server c hc := by
    rw [Column.storeDefault, Option.isNone_iff_eq_none.1 (hnone c hc).2.1]
    exact Cell.isShowable_null c.kind
  stamped c hc hstamped := by
    rw [(hnone c hc).2.2] at hstamped
    cases hstamped

theorem Model.IsShowable.column?_field (hm : m.IsShowable) (hc : c ∈ m.columns) :
    m.column? c.field = some c := by
  obtain ⟨d, hd⟩ := Model.exists_column?_of_mem (List.mem_map_of_mem hc)
  obtain rfl : d = c := List.inj_on_of_nodup_map hm.fields (List.mem_of_find?_eq_some hd) hc
    (Model.field_of_column? hd)
  exact hd

/-- What is sent for a column of a new record is kept as a cell that can be shown. -/
theorem Record.IsShowable.sent (h : r.IsShowable m) (hm : m.IsShowable) (hc : c ∈ m.columns)
    {v : Value} (hsent : r.sent? supply c = some v) : (c.kept v).isShowable c.kind = true := by
  rcases Store.sent?_cases hsent with ⟨d, hd, rfl⟩ | ⟨-, hget⟩ | ⟨rfl, -⟩
  · exact hm.default c hc d hd supply
  · have hvalue : r.value c.field = v := by rw [value, hget, Option.getD_some]
    rw [← hvalue]
    exact h c hc
  · exact isShowable_kept_null c

namespace Store

variable {s s' : Store} {row next : Row} {now : Calendar.Moment}

/-- A new row of a record that is kept so can be shown. -/
theorem isShowable_of_insert (hm : m.IsShowable) (hr : r.IsShowable m)
    (h : s.insert supply m r = .ok (s', row)) : row.IsShowable m := by
  intro c hc
  rw [cell_of_insert hm.names h hc]
  split
  · next hname =>
    rw [(Model.soleKey?_of_rowNumber? (rowNumber?_of_name hm.names hc hname)).2]
    exact Cell.isShowable_integer row.number
  · cases hsent : r.sent? supply c with
    | none => exact hm.server c hc
    | some v => exact hr.sent hm hc hsent

/-- A change keeps a row that can be shown so, when the values that it changes are kept as cells
that can be shown. -/
theorem isShowable_of_update (hm : m.IsShowable) (hrow : row.IsShowable m)
    (hafter : ∀ c ∈ m.columns, differs (before.value c.field) (after.value c.field) = true →
      (c.kept (after.value c.field)).isShowable c.kind = true)
    (h : s.update now m row before after = .ok (s', next)) : next.IsShowable m := by
  intro c hc
  rcases cell_of_update_cases hm.names h hc with hkept | ⟨hdiffers, hwritten⟩ | ⟨hstamped, htime⟩
  · rw [hkept]
    exact hrow c hc
  · rw [hwritten]
    exact hafter c hc hdiffers
  · rw [htime]
    exact hm.stamped c hc hstamped now

end Store

end TableApi
