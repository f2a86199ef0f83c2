import TableApi.Proofs.Statement.Operand
import TableApi.Proofs.Store.Canonical

/-! From a cell to the text that shows it and back. A cell is loaded, and its value in plain form is
written as a text; the text is coerced to a value of the column, which is bound and compared. For a
cell in the form of a kind that has texts this ends where it began. -/

namespace TableApi

open Text Number Calendar

/-- The text that shows a cell of a column. -/
def Cell.shownText (kind : ColumnKind) (cell : Cell) : String := (cell.load kind).plain.plainText

/-- A value that a text is coerced to in a column, and that is bound to a cell which is compared as
equal with another one. -/
structure ReadsBack (kind : ColumnKind) (s : String) (cell : Cell) (x : Value) : Prop where
  coerced : coerce kind (.text s) = .ok x
  isInstance : Coercion.isInstance kind x = true
  isNumber : x.isNan = false
  binds : Select.Binds (.compared (some kind) x, x)
  equal : kind.affinity.compares .equal cell (Clause.operandCell kind x) = true

/-! ### Loading -/

theorem load_boolean (b : Bool) : (Cell.integer b.toNat).load .boolean = .bool b := by
  cases b <;> rfl

theorem load_date (d : Date) : (Cell.text d.text).load .date = .date d := by
  rw [Cell.load, Cell.loadDate, readDate?_text]
  rfl

theorem load_uuid (u : Uuid) : (Cell.text u.plainText).load .uuid = .uuid u := by
  rw [Cell.load, Cell.loadUuid, Uuid.read?_plainText]
  rfl

/-- A moment is loaded without the offset that it may have had. -/
theorem load_moment (m : Moment) :
    (Cell.text (ParameterType.momentText m)).load .moment = .moment ⟨m.date, m.time, none⟩ := by
  have hspace : bytesOf " " = [32] := by decide
  have hcolon : bytesOf ":" = [58] := by decide
  have hpoint : bytesOf "." = [46] := by decide
  have hbytes : bytesOf (ParameterType.momentText m) =
      m.date.textBytes ++ 32 :: m.time.fullBytes := by
    simp only [ParameterType.momentText, TimeOfDay.clockText, bytesOf_append, Date.bytesOf_text,
      bytesOf_padded, hspace, hcolon, hpoint, TimeOfDay.fullBytes, List.append_assoc,
      List.cons_append, List.nil_append]
  rw [Cell.load, Cell.loadMoment,
    readMoment?_of_readTime? hbytes (by decide) (readTime?_fullBytes m.time)]
  rfl

/-- A cell that belongs to a column is loaded as a value that the column is meant for. -/
theorem suits_load {kind : ColumnKind} {cell : Cell} (h : cell.Belongs kind) :
    (cell.load kind).Suits kind := by
  intro hkind
  rcases h with rfl | hform
  · cases kind <;> exact Or.inl rfl
  · right
    cases kind with
    | integer =>
      obtain ⟨n, rfl, -⟩ := hform
      exact ⟨rfl, nofun⟩
    | text =>
      obtain ⟨s, rfl⟩ := hform
      exact ⟨rfl, nofun⟩
    | boolean =>
      obtain ⟨b, rfl⟩ := hform
      rw [load_boolean]
      exact ⟨rfl, nofun⟩
    | date =>
      obtain ⟨d, rfl⟩ := hform
      rw [load_date]
      exact ⟨rfl, nofun⟩
    | moment =>
      obtain ⟨m, rfl⟩ := hform
      rw [load_moment]
      exact ⟨rfl, nofun⟩
    | uuid =>
      obtain ⟨u, rfl⟩ := hform
      rw [load_uuid]
      exact ⟨rfl, nofun⟩
    | float | numeric | json | raw => cases hkind

/-! ### Equal cells -/

theorem compares_text (affinity : Affinity) {s : String}
    (h : affinity.compared (.text s) = .text s) :
    affinity.compares .equal (.text s) (.text s) = true := by
  have horder : (Cell.text s).order (.text s) = .eq := Std.ReflOrd.compare_self
  rw [Affinity.compares, h, horder]
  rfl

theorem compares_integer (n : Int) :
    Affinity.numeric.compares .equal (.integer n) (.integer n) = true :=
  Store.sameCell_integer n

/-! ### One kind after the other -/

theorem readsBack_integer {n : Int} (h : fitsStore n = true) :
    ReadsBack .integer (toString n) (.integer n) (.int n) := by
  have hbound : (ParameterType.compared (some .integer) (.int n)).prepare (.int n) =
      .ok (.cell (.integer n)) := by
    simp only [ParameterType.compared, ParameterType.ofValue?, Option.getD_some,
      ParameterType.prepare, Prepared.ofValue, Prepared.ofInt, h, if_true]
  refine ⟨?_, rfl, rfl, ⟨_, hbound⟩, ?_⟩
  · have hread : Coercion.toInteger? (.text (toString n)) =
        .ok ((readInteger? (toString n)).map Value.int) := rfl
    have hconvert : coerce .integer (.text (toString n)) =
        (Coercion.toInteger? (.text (toString n))).map fun x => x.getD (.text (toString n)) := rfl
    rw [hconvert, hread, readInteger?_toString h]
    rfl
  · rw [Clause.operandCell, Clause.boundCell_of_prepare hbound]
    exact compares_integer n

theorem readsBack_text (s : String) : ReadsBack .text s (.text s) (.text s) :=
  ⟨rfl, rfl, rfl, ⟨_, rfl⟩, compares_text _ rfl⟩

theorem readsBack_boolean (b : Bool) :
    ReadsBack .boolean (Value.boolText b) (.integer b.toNat) (.bool b) := by
  refine ⟨?_, rfl, rfl, ⟨_, rfl⟩, compares_integer b.toNat⟩
  cases b <;> rfl

theorem hasTimePart_dateText (d : Date) : Coercion.hasTimePart d.text = false := by
  have hplain : MadeOf (fun c => !(decide (c = 'T') || decide (c = ' '))) d.text :=
    d.madeOf_text (by decide)
  simpa [Coercion.hasTimePart, MadeOf] using hplain

theorem readsBack_date (d : Date) : ReadsBack .date d.text (.text d.text) (.date d) := by
  have hread : Coercion.toDate? (.text d.text) = some (.date d) := by
    simp [Coercion.toDate?, Value.plainText, d.strip_text, hasTimePart_dateText, readDate?_text]
  refine ⟨?_, rfl, rfl, ⟨_, rfl⟩,
    compares_text _ (compared_numeric_text (readNumber?_dateText d))⟩
  rw [Coercion.coerce_of_ne_null .date rfl, Coercion.convert?, hread]
  rfl

/-- A moment without an offset is shown by a text that is read as the moment in universal time. -/
theorem readsBack_moment (m : Moment) : ReadsBack .moment (Moment.text ⟨m.date, m.time, none⟩)
    (.text (ParameterType.momentText m)) (.moment ⟨m.date, m.time, some Offset.utc⟩) := by
  let known : Moment := ⟨m.date, m.time, none⟩
  have htime : Coercion.hasTimePart (known.textWith "T") = true := by
    simp [Coercion.hasTimePart, Moment.textWith]
  have hmoment : Coercion.readMomentText? (known.textWith "T") = some known :=
    Coercion.readMomentText?_textWith (b := 84) (by decide) (by decide)
      (madeOf_singleton (c := 'T') (by decide)) known
  have hread : Coercion.toMoment? (.text (known.textWith "T")) = some (.moment known.orUtc) := by
    simp [Coercion.toMoment?, Coercion.text?, Coercion.readDayOrMoment?, known.strip_textWith,
      htime, hmoment]
  refine ⟨?_, rfl, rfl, ⟨_, rfl⟩,
    compares_text _ (compared_numeric_text (readNumber?_momentText m))⟩
  rw [Moment.text, Coercion.coerce_of_ne_null .moment rfl, Coercion.convert?, hread]
  rfl

theorem readsBack_uuid (u : Uuid) : ReadsBack .uuid u.text (.text u.plainText) (.uuid u) := by
  refine ⟨?_, rfl, rfl, ⟨_, rfl⟩, compares_text _ rfl⟩
  have hread : Coercion.toUuid? (.text u.text) = some (.uuid u) := by
    simp [Coercion.toUuid?, Value.plainText, Uuid.strip_of_grouped (Uuid.grouped_text u),
      Uuid.read?_text]
  rw [Coercion.coerce_of_ne_null .uuid rfl, Coercion.convert?, hread]
  rfl

/-- A cell in the form of its kind is found by the text that shows it. -/
theorem exists_readsBack {kind : ColumnKind} {cell : Cell} (hkind : kind.isSpelled = true)
    (h : cell.Canonical kind) : ∃ x, ReadsBack kind (cell.shownText kind) cell x := by
  unfold Cell.shownText
  cases kind with
  | integer =>
    obtain ⟨n, rfl, hfits⟩ := h
    exact ⟨_, readsBack_integer hfits⟩
  | text =>
    obtain ⟨s, rfl⟩ := h
    exact ⟨_, readsBack_text s⟩
  | boolean =>
    obtain ⟨b, rfl⟩ := h
    rw [load_boolean]
    exact ⟨_, readsBack_boolean b⟩
  | date =>
    obtain ⟨d, rfl⟩ := h
    rw [load_date]
    exact ⟨_, readsBack_date d⟩
  | moment =>
    obtain ⟨m, rfl⟩ := h
    rw [load_moment]
    exact ⟨_, readsBack_moment m⟩
  | uuid =>
    obtain ⟨u, rfl⟩ := h
    rw [load_uuid]
    exact ⟨_, readsBack_uuid u⟩
  | float | numeric | json | raw => cases hkind

end TableApi
