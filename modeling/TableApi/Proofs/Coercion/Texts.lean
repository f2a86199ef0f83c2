import TableApi.Proofs.Coercion
import TableApi.Proofs.Number.Solid
import TableApi.Proofs.Statement.Check

/-! Texts that are coerced to the kind of a column. A text denotes a value of the kind or stays a
text. Where the two are parameters of different types, a list of texts is bound as its first text
says, and the type of the one kind of texts may refuse the other. -/

namespace TableApi

open Number Text

/-- Whether a text that denotes a value of the kind is a parameter of another type than one that
does not. -/
def ColumnKind.tellsTexts : ColumnKind → Bool
  | float | numeric | boolean | date | moment => true
  | integer | text | uuid | json | raw => false

namespace Coercion

variable {kind : ColumnKind} {s t : String} {x : Value}

/-- The value of a kind that a text denotes. -/
def denoted? (kind : ColumnKind) (s : String) : Option Value :=
  match kind with
  | .integer => (readInteger? s).map Value.int
  | .float => (Double.read? (strip s)).map Value.float
  | .numeric => toDecimal? (.text s)
  | .boolean => toBool? (.text s)
  | .date => toDate? (.text s)
  | .moment => toMoment? (.text s)
  | .uuid => toUuid? (.text s)
  | .text | .json | .raw => none

theorem convert?_text (kind : ColumnKind) (s : String) :
    convert? kind (.text s) = .ok (denoted? kind s) := by
  cases kind <;> rfl

def ofText (kind : ColumnKind) (s : String) : Value := (denoted? kind s).getD (.text s)

def denotes (kind : ColumnKind) (s : String) : Bool := (denoted? kind s).isSome

theorem coerce_text (kind : ColumnKind) (s : String) :
    coerce kind (.text s) = .ok (ofText kind s) := by
  rw [coerce_of_ne_null kind rfl, convert?_text]
  rfl

/-- The values that texts denote in the columns of each kind. -/
inductive Denoted : ColumnKind → Value → Prop where
  | integer (n : Int) : Denoted .integer (.int n)
  | float (y : Double) : Denoted .float (.float y)
  | numeric (d : Decimal) : Denoted .numeric (.decimal d)
  | boolean (b : Bool) : Denoted .boolean (.bool b)
  | date (d : Calendar.Date) : Denoted .date (.date d)
  | moment (m : Calendar.Moment) : Denoted .moment (.moment m)
  | uuid (u : Uuid) : Denoted .uuid (.uuid u)

theorem denoted_of_denoted? (h : denoted? kind s = some x) : Denoted kind x := by
  have hconvert : convert? kind (.text s) = .ok (some x) := by rw [convert?_text, h]
  cases settled_of_convert? hconvert <;> constructor

theorem ofText_cases (kind : ColumnKind) (s : String) :
    denotes kind s = true ∧ Denoted kind (ofText kind s) ∨
      denotes kind s = false ∧ ofText kind s = .text s := by
  rw [denotes, ofText]
  cases h : denoted? kind s with
  | none => exact .inr ⟨rfl, rfl⟩
  | some x => exact .inl ⟨rfl, denoted_of_denoted? h⟩

theorem isNull_ofText (kind : ColumnKind) (s : String) : (ofText kind s).isNull = false := by
  rcases ofText_cases kind s with ⟨-, hdenoted⟩ | ⟨-, htext⟩
  · generalize ofText kind s = x at hdenoted
    cases hdenoted <;> rfl
  · rw [htext]
    rfl

/-! ### Types of parameters -/

/-- The type of the parameter that a text becomes. -/
def textType (kind : ColumnKind) (denotes : Bool) : ParameterType :=
  if kind.tellsTexts && denotes then kind.parameterType
  else if kind = .uuid then .uuid
  else .asGiven

theorem compared_ofText (kind : ColumnKind) (s : String) :
    ParameterType.compared (some kind) (ofText kind s) = textType kind (denotes kind s) := by
  rcases ofText_cases kind s with ⟨hdenotes, hdenoted⟩ | ⟨hdenotes, htext⟩
  · rw [hdenotes]
    generalize ofText kind s = x at hdenoted
    cases hdenoted <;> rfl
  · rw [hdenotes, htext]
    cases kind <;> rfl

/-! ### Bound texts -/

/-- As they are given all but decimal numbers can be bound. -/
theorem binds_asGiven (htells : kind.tellsTexts = true) (hkind : kind ≠ .numeric) (s : String) :
    Select.Binds (.asGiven, ofText kind s) := by
  rcases ofText_cases kind s with ⟨-, hdenoted⟩ | ⟨-, htext⟩
  · generalize ofText kind s = x at hdenoted
    cases hdenoted with
    | numeric => contradiction
    | integer | uuid => cases htells
    | float | boolean | date | moment => exact ⟨_, rfl⟩
  · rw [htext]
    exact ⟨_, rfl⟩

/-- A decimal number is none of the values that the store takes as they are. -/
theorem not_binds_decimal (h : denotes .numeric s = true) :
    ¬ Select.Binds (.asGiven, ofText .numeric s) := by
  rintro ⟨cell, hcell⟩
  rcases ofText_cases .numeric s with ⟨-, hdenoted⟩ | ⟨hnone, -⟩
  · generalize ofText .numeric s = x at hdenoted hcell
    cases hdenoted
    cases hcell
  · exact Bool.false_ne_true (hnone.symm.trans h)

/-- The type of a column refuses a text that denotes no value of the kind, if the column does not
hold decimal numbers. -/
theorem not_binds_text (htells : kind.tellsTexts = true) (hkind : kind ≠ .numeric)
    (h : denotes kind s = false) : ¬ Select.Binds (kind.parameterType, ofText kind s) := by
  rcases ofText_cases kind s with ⟨hdenotes, -⟩ | ⟨-, htext⟩
  · exact absurd (h.symm.trans hdenotes) nofun
  · rw [htext]
    rintro ⟨cell, hcell⟩
    cases kind with
    | numeric => contradiction
    | integer | text | uuid | json | raw => cases htells
    | boolean | date | moment => cases hcell
    | float =>
      have hcell : ParameterType.prepareNumber (.text s) = .ok (.cell cell) := hcell
      unfold ParameterType.prepareNumber at hcell
      simp only at hcell
      split at hcell
      · next x hx =>
        have hdenotes : denotes .float s = true := by
          rw [denotes, denoted?, Double.read?_strip hx]
          rfl
        exact absurd (h.symm.trans hdenotes) nofun
      · cases hcell

end Coercion

end TableApi
